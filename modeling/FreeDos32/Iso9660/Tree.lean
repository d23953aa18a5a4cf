import FreeDos32.Iso9660.PathResolution
import FreeDos32.Iso9660.Walk

namespace FreeDos32.Iso9660

open RefTree (Counts Closed Cursor)

def place (v : Volume) (key : Key) : ℕ := key.1 * v.blockSize + key.2

/-- A directory that starts with a sector and whose records can be read and are among the entries. -/
def Readable (dev : Device) (v : Volume) (f : File) (entries : Key → Prop) : Prop :=
  ∃ ps, Directory dev f v ps ∧ start f v % bytesPerSector = 0 ∧ Reads dev.disc v.blockSize (start f v) ps ∧
    ∀ q ∈ ps, entries (q / v.blockSize, q % v.blockSize)

/-- The entries are the records of a tree of directories. -/
structure Tree (sys : System) (v : Volume) (entries : Key → Prop) : Prop where
  key : ∀ key, entries key → key.1 % v.blocksPerSector = 0 ∧ key.2 < v.blockSize ∧ RecordOk sys.dev.disc (place v key)
  root : Readable sys.dev v (rootFile sys.root (oRdonly ||| oDirectory)) entries
  walk : ∀ key, entries key → (record sys.dev.disc (place v key)).flags &&& flDir ≠ 0 →
    Readable sys.dev v (fileOf (record sys.dev.disc (place v key)) (oRdonly ||| oDirectory)) entries

variable {dev : Device} {sys : System} {f : File} {v v' : Volume} {p q o k fuel limit block : ℕ} {ps ps₀ : List ℕ}
  {entries : Key → Prop} {disc data : ℕ → Byte}

theorem place_congr (h : v'.logBlockSize = v.logBlockSize) (key : Key) : place v' key = place v key := by
  rw [place, place, blockSize_congr h]

section Readdir

theorem readdirLoop_cases (hl : Laid dev.disc limit p ps) (hd : Directory dev f v ps₀) (hh : Holds dev v)
    (hlimit : limit = start f v + f.dataLength) (hstart : start f v % bytesPerSector = 0)
    (hreads : Reads dev.disc v.blockSize p ps) (hp : p = start f v + o) (hk : f.dataLength - o < k) :
    ∃ v', Holds dev v' ∧ v'.logBlockSize = v.logBlockSize ∧
      ((∃ e, readdirLoop dev f k o v = some (.error e, v')) ∨
        ∃ q qs o', ps = q :: qs ∧ RecordOk dev.disc q ∧ (o < o' ∧ o' ≤ f.dataLength) ∧ q + (record dev.disc q).lenDr = start f v + o' ∧
          Laid dev.disc limit (start f v + o') qs ∧ Reads dev.disc v.blockSize (start f v + o') qs ∧
          readdirLoop dev f k o v = some (.ok ⟨0, q / v.blockSize, q % v.blockSize, (o' : ℕ)⟩, v') ∧
          ∀ i, q % v.blockSize + i < bytesPerSector → v'.buffer.data (q % v.blockSize + i) = dev.disc (q + i)) := by
  have hlength := hd.length
  obtain ⟨k, rfl⟩ : ∃ m, k = m + 1 := ⟨k - 1, by omega⟩
  induction hl generalizing v o k with
  | done => exact ⟨v, hh, rfl, .inl ⟨_, readdirLoop_end (by omega)⟩⟩
  | @record p ps hr hle hl _ =>
    subst hp
    have hid := hr.id
    have ho : o < f.dataLength := by omega
    obtain ⟨v', hh', hlog, ⟨hdata, -, hturn⟩ | ⟨hturn, -⟩⟩ := readdirLoop_first_cases hd hh ho k hreads.1
    · refine ⟨v', hh', hlog, .inr ⟨_, ps, o + (record dev.disc (start f v + o)).lenDr, rfl, hr, by omega,
        Nat.add_assoc .., ?_⟩⟩
      have hplace := hd.place_eq ho
      have hlt := Nat.mod_lt o (blockSize_pos v)
      have hmod : (start f v + o) % v.blockSize = o % v.blockSize := by
        rw [← hplace, Nat.mul_add_mod_self_right, Nat.mod_eq_of_lt hlt]
      have hdiv : (start f v + o) / v.blockSize = blockAt f v o := by
        rw [← hplace, Nat.mul_comm, Nat.mul_add_div (blockSize_pos v), Nat.div_eq_of_lt hlt, Nat.add_zero]
      obtain ⟨⟨hid', hnext⟩, hrest⟩ := List.forall_mem_cons.mp hreads.2
      rw [hmod, hdiv, ← Nat.add_assoc]
      refine ⟨hl, ⟨hnext, hrest⟩, ?_, hdata⟩
      rw [hturn hr, if_pos hid']
    · exact ⟨v', hh', hlog, .inl ⟨_, hturn⟩⟩
  | @padding p ps hlt hzero hmod hl ih =>
    subst hp
    have ho : o < f.dataLength := by omega
    obtain ⟨v', hh', hlog, ⟨-, hturn, -⟩ | ⟨hturn, -⟩⟩ := readdirLoop_first_cases hd hh ho k hreads.1
    · obtain ⟨k, rfl⟩ : ∃ m, k = m + 1 := ⟨k - 1, by omega⟩
      have hstart' : start f v' = start f v := start_congr f hlog
      have hwhole : limit % bytesPerSector = 0 := by rw [hlimit, Nat.add_mod, hstart, hlength]; rfl
      have hnext : start f v' + (o + (bytesPerSector - (start f v + o) % bytesPerSector)) =
          ((start f v + o) / bytesPerSector + 1) * bytesPerSector := by
        rw [hstart', ← Nat.add_assoc, sector_end]
      have hpos := Nat.mod_lt (start f v + o) (show 0 < bytesPerSector by decide)
      have hreads' : Reads dev.disc v'.blockSize (((start f v + o) / bytesPerSector + 1) * bytesPerSector) ps := by
        rw [Reads, Nat.mul_mod_left, blockSize_congr hlog]
        exact ⟨blockSize_pos v, hreads.2⟩
      rw [Nat.min_eq_right (sector_le hwhole hlt)] at ih
      obtain ⟨v'', hh'', hlog', hres⟩ := @ih v' (o + (bytesPerSector - (start f v + o) % bytesPerSector)) (hd.congr hlog) hh'
        (by rw [hstart', hlimit]) (by rw [hstart', hstart]) hreads' hnext.symm k (by omega)
      refine ⟨v'', hh'', hlog'.trans hlog, ?_⟩
      rw [hturn hzero]
      rw [hstart', blockSize_congr hlog] at hres
      obtain ⟨e, hres⟩ | ⟨q, qs, o', hps, hr, ⟨hlt', hend⟩, hres⟩ := hres
      · exact .inl ⟨e, hres⟩
      · exact .inr ⟨q, qs, o', hps, hr, ⟨by omega, hend⟩, hres⟩
    · exact ⟨v', hh', hlog, .inl ⟨_, hturn⟩⟩

theorem lookupLoop_laid (fn : ℕ → Byte) (fnsize : ℕ) (fnfcb : List Byte) (hl : Laid dev.disc limit p ps)
    (hd : Directory dev f v ps₀) (hh : Holds dev v) (hlimit : limit = start f v + f.dataLength)
    (hstart : start f v % bytesPerSector = 0) (hreads : Reads dev.disc v.blockSize p ps)
    (hentries : ∀ q ∈ ps, entries (q / v.blockSize, q % v.blockSize)) (hp : p = start f v + o)
    (hpointer : f.filePointer = o) (hfuel : f.dataLength - o < fuel) :
    ∃ res v', lookupLoop dev fn fnsize fnfcb fuel f v = some (res, v') ∧ Holds dev v' ∧
      v'.logBlockSize = v.logBlockSize ∧
        ∀ key flags, res = .ok (key, flags) → entries key ∧ flags = (record dev.disc (place v key)).flags := by
  induction fuel generalizing f v o p ps with
  | zero => omega
  | succ fuel ih =>
    obtain ⟨v', hh', hlog, hres⟩ := readdirLoop_cases hl hd hh hlimit hstart hreads hp (Nat.lt_succ_of_le (Nat.sub_le _ _))
    rw [lookupLoop, doReaddir, hpointer]
    obtain ⟨e, hcall⟩ | ⟨q, qs, o', rfl, hr, ⟨hlt, hend⟩, hnext, hl', hreads', hcall, hdata⟩ := hres
    · rw [hcall]
      refine ⟨_, v', rfl, hh', hlog, ?_⟩
      intro key flags h
      cases h
    · rw [hcall]
      obtain ⟨hentry, hrest⟩ := List.forall_mem_cons.mp hentries
      dsimp only
      split
      · refine ⟨_, v', rfl, hh', hlog, ?_⟩
        intro key flags h
        cases h
        refine ⟨hentry, ?_⟩
        have hplace : place v (q / v.blockSize, q % v.blockSize) = q := Nat.div_add_mod' q v.blockSize
        have hid := hr.id
        have hsector := hr.sector
        have hle : q % v.blockSize ≤ q % bytesPerSector := by
          rw [← Nat.mod_mod_of_dvd q (blockSize_dvd hh.size)]
          exact Nat.mod_le _ _
        rw [hplace, Nat.zero_add]
        exact congrArg BitVec.toNat (hdata 25 (by omega))
      · have hstart' : start f v' = start f v := start_congr f hlog
        obtain ⟨res, v'', hloop, hh'', hlog', hkey⟩ := @ih { f with filePointer := (o' : ℕ) } v' (start f v + o') o' qs hl'
          ((hd.congr hlog).seek _) hh' (hlimit.trans (by rw [← hstart']; rfl)) (hstart' ▸ hstart)
          (by rwa [blockSize_congr hlog]) (by rwa [blockSize_congr hlog]) (by rw [← hstart']; rfl) rfl (by dsimp only; omega)
        refine ⟨res, v'', hloop, hh'', hlog'.trans hlog, ?_⟩
        intro key flags h
        rw [← place_congr hlog]
        exact hkey key flags h

end Readdir

end FreeDos32.Iso9660
