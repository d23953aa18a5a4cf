import FreeDos32.Iso9660.Tree

namespace FreeDos32.Iso9660

open RefTree (Counts Closed Cursor)

def Cached (dev : Device) (entries : Key → Prop) (s : State) : Prop :=
  ∀ key p, s.counts.references (key :: p) ≠ 0 →
    entries key ∧ s.flags (key :: p) = (record dev.disc (place s.volume key)).flags

structure Sound (sys : System) (entries : Key → Prop) (s : State) : Prop where
  holds : Holds sys.dev s.volume
  tree : Tree sys s.volume entries
  cached : Cached sys.dev entries s
  closed : Closed s.counts

/-- In the midst of a call that began with the counts `c₀` and the open files `files`, at the node `d`. -/
structure Walking (sys : System) (entries : Key → Prop) (c₀ : Counts Key) (files : List OpenFile) (s : State) (d : Path) :
    Prop where
  holds : Holds sys.dev s.volume
  tree : Tree sys s.volume entries
  cached : Cached sys.dev entries s
  cursor : Cursor c₀ s.counts d
  files : s.filesOpen = files

variable {dev : Device} {sys : System} {entries : Key → Prop} {c₀ : Counts Key} {files : List OpenFile} {s s' : State}
  {v v' : Volume} {d : Path} {flags : ℕ} {disc data : ℕ → Byte} {p q : ℕ}

section Congr

theorem Readable.congr {f : File} (h : v'.logBlockSize = v.logBlockSize) (hr : Readable dev v f entries) :
    Readable dev v' f entries := by
  obtain ⟨ps, hd, hstart, hreads, hentries⟩ := hr
  have hstart' : start f v' = start f v := start_congr f h
  refine ⟨ps, hd.congr h, ?_, ?_, ?_⟩
  · rwa [hstart']
  · rwa [hstart', blockSize_congr h]
  · rwa [blockSize_congr h]

theorem Tree.congr (h : v'.logBlockSize = v.logBlockSize) (ht : Tree sys v entries) : Tree sys v' entries := by
  constructor
  · intro key hkey
    rw [blocksPerSector_congr h, blockSize_congr h, place_congr h]
    exact ht.key key hkey
  · exact ht.root.congr h
  · intro key hkey hdir
    rw [place_congr h] at hdir ⊢
    exact (ht.walk key hkey hdir).congr h

theorem Cached.congr (hc : Cached dev entries s) (h : s'.volume.logBlockSize = s.volume.logBlockSize)
    (hflags : s'.flags = s.flags)
    (hlive : ∀ key p, s'.counts.references (key :: p) ≠ 0 → s.counts.references (key :: p) ≠ 0) : Cached dev entries s' := by
  intro key p hkey
  rw [hflags, place_congr h]
  exact hc key p (hlive key p hkey)

end Congr

section Open

def fileAt (sys : System) (v : Volume) (d : Path) (flags : ℕ) : File :=
  match d with
  | [] => rootFile sys.root flags
  | key :: _ => fileOf (record sys.dev.disc (place v key)) flags

theorem fileOf_congr (h : ∀ i < 26, data (p + i) = disc (q + i)) (flags : ℕ) :
    fileOf (record data p) flags = fileOf (record disc q) flags := by
  have hu32 (k : ℕ) (hk : k + 3 < 26) : u32 data (p + k) = u32 disc (q + k) := by
    simp only [u32, Nat.add_assoc, h k (by omega), h (k + 1) (by omega), h (k + 2) (by omega), h (k + 3) hk]
  simp only [fileOf, record, hu32 2 (by decide), hu32 10 (by decide), h 1 (by decide)]

structure OpenedAt (sys : System) (d : Path) (flags : ℕ) (s : State) (f : OpenFile) (s' : State) : Prop where
  counts : s'.counts = RefTree.get d s.counts
  files : s'.filesOpen = f :: s.filesOpen
  dentry : f.dentry = d
  references : f.references = 1
  file : f.file = fileAt sys s.volume d flags
  trunc : flags &&& oTrunc = 0
  dir : flags &&& oDirectory ≠ 0 → s.flags d &&& flDir ≠ 0

theorem takeFile_cases (sys : System) (d : Path) (file : File) (fileFlags : ℕ) (t : Timestamp) (s : State) :
    takeFile sys d file fileFlags t s = (.error .enomem, { s with allocs := s.allocs + 1 }) ∨
      takeFile sys d file fileFlags t s = (.ok ⟨s.allocs, d, file, 1, fileFlags, t⟩,
        { s with
          allocs := s.allocs + 1
          filesOpen := ⟨s.allocs, d, file, 1, fileFlags, t⟩ :: s.filesOpen
          counts := RefTree.get d s.counts }) := by
  rw [takeFile]
  split
  · exact .inr rfl
  · exact .inl rfl

theorem open_cases (hw : Walking sys entries c₀ files s d) (flags : ℕ) :
    ∃ res s', open_ sys d flags s = some (res, s') ∧ Holds sys.dev s'.volume ∧
      s'.volume.logBlockSize = s.volume.logBlockSize ∧ s'.flags = s.flags ∧
      ((∃ e, res = .error e ∧ s'.counts = s.counts ∧ s'.filesOpen = s.filesOpen) ∨
        ∃ f, res = .ok f ∧ OpenedAt sys d flags s f s') := by
  rw [open_.eq_def]
  by_cases hro : flags &&& oCreat ≠ 0 ∨ flags &&& oTrunc ≠ 0 ∨ flags &&& oAccmode = oWronly ∨ flags &&& oAccmode = oRdwr
  · exact ⟨_, s, if_pos hro, hw.holds, rfl, rfl, .inl ⟨_, rfl, rfl, rfl⟩⟩
  · have htrunc : flags &&& oTrunc = 0 := by
      by_contra hne
      exact hro (.inr (.inl hne))
    dsimp only
    rw [if_neg hro]
    by_cases hdir : flags &&& oDirectory ≠ 0 ∧ s.flags d &&& flDir = 0
    · exact ⟨_, s, if_pos hdir, hw.holds, rfl, rfl, .inl ⟨_, rfl, rfl, rfl⟩⟩
    · have hdir' : flags &&& oDirectory ≠ 0 → s.flags d &&& flDir ≠ 0 := fun h hzero => hdir ⟨h, hzero⟩
      rw [if_neg hdir]
      split
      · exact ⟨_, s, rfl, hw.holds, rfl, rfl, .inl ⟨_, rfl, rfl, rfl⟩⟩
      · cases d with
        | nil =>
          obtain htake | htake := takeFile_cases sys [] (rootFile sys.root flags) flDir sys.root.recordingTime s
          · exact ⟨_, _, congrArg some htake, hw.holds, rfl, rfl, .inl ⟨_, rfl, rfl, rfl⟩⟩
          · exact ⟨_, _, congrArg some htake, hw.holds, rfl, rfl, .inr ⟨_, rfl, rfl, rfl, rfl, rfl, rfl, htrunc, hdir'⟩⟩
        | cons key parent =>
          obtain ⟨hentry, -⟩ := hw.cached key parent hw.cursor.live
          obtain ⟨hfirst, hlt, hr⟩ := hw.tree.key key hentry
          have hid := hr.id
          have hsector := hr.sector
          have hmod := place_mod hw.holds.size key.1 key.2 hlt
          rw [hfirst, Nat.zero_mul, Nat.zero_add] at hmod
          change place s.volume key % bytesPerSector = key.2 at hmod
          rw [hmod] at hsector
          obtain ⟨v', hh', hlog, ⟨hread, hdata⟩ | ⟨hread, -⟩⟩ := readbuf_first_cases hw.holds hfirst
          · have hfile : fileOf (record v'.buffer.data key.2) flags = fileAt sys s.volume (key :: parent) flags := by
              apply fileOf_congr
              intro i hi
              rw [hdata _ (by omega), ← Nat.add_assoc]
              rfl
            dsimp only
            rw [hread]
            dsimp only
            rw [if_neg (by omega), Nat.zero_add]
            obtain htake | htake := takeFile_cases sys (key :: parent) (fileOf (record v'.buffer.data key.2) flags)
              (record v'.buffer.data key.2).flags (record v'.buffer.data key.2).recordingTime { s with volume := v' }
            · exact ⟨_, _, congrArg some htake, hh', hlog, rfl, .inl ⟨_, rfl, rfl, rfl⟩⟩
            · exact ⟨_, _, congrArg some htake, hh', hlog, rfl, .inr ⟨_, rfl, rfl, rfl, rfl, rfl, hfile, htrunc, hdir'⟩⟩
          · dsimp only
            rw [hread]
            exact ⟨_, _, rfl, hh', hlog, rfl, .inl ⟨_, rfl, rfl, rfl⟩⟩

end Open

section Lookup

theorem OpenedAt.magic {f : OpenFile} (ho : OpenedAt sys d flags s f s') : f.file.magic = true := by
  rw [ho.file]
  cases d <;> rfl

theorem quit_eq {f : OpenFile} {res : Except Errno Unit} (ho : OpenedAt sys d flags s f s') (d' : Path) (t : State)
    (hfiles : t.filesOpen = f :: s.filesOpen) (hlive : (RefTree.put d t.counts).references d ≠ 0) :
    quit res f d' t = some (res, d', { t with counts := RefTree.put d t.counts, filesOpen := s.filesOpen }) := by
  have hclose : close f t = some (.ok (), { t with counts := RefTree.put d t.counts, filesOpen := s.filesOpen }) := by
    rw [close, if_neg (by simp [ho.magic, ho.references]), if_pos (by rw [ho.references])]
    simp [dput, ho.dentry, hlive, hfiles]
  rw [quit, hclose]
  rfl

theorem quit_walking {f : OpenFile} (hw : Walking sys entries c₀ files s d) (ho : OpenedAt sys d flags s f s')
    (hflags : s'.flags = s.flags) (res : Except Errno Unit) (hh : Holds sys.dev v)
    (hlog : v.logBlockSize = s.volume.logBlockSize) (n : ℕ) :
    ∃ t, quit res f d { s' with volume := v, allocs := n } = some (res, d, t) ∧ Walking sys entries c₀ files t d := by
  have hput : RefTree.put d s'.counts = s.counts := by
    rw [ho.counts, RefTree.put_get hw.cursor.live]
  refine ⟨_, quit_eq ho d { s' with volume := v, allocs := n } ho.files (by rw [hput]; exact hw.cursor.live), ?_⟩
  refine ⟨hh, hw.tree.congr hlog, ?_, ?_, hw.files⟩
  · refine hw.cached.congr hlog hflags fun key p hk => ?_
    dsimp only at hk
    rwa [hput] at hk
  · rw [hput]
    exact hw.cursor

theorem OpenedAt.readable {f : OpenFile} (hw : Walking sys entries c₀ files s d)
    (ho : OpenedAt sys d (oRdonly ||| oDirectory) s f s') : Readable sys.dev s.volume f.file entries := by
  have hdir := ho.dir (by decide)
  rw [ho.file]
  cases d with
  | nil => exact hw.tree.root
  | cons key parent =>
    obtain ⟨hentry, hflags⟩ := hw.cached key parent hw.cursor.live
    rw [hflags] at hdir
    exact hw.tree.walk key hentry hdir

theorem found_walking {f : OpenFile} {key : Key} {fl : ℕ} (hw : Walking sys entries c₀ files s d)
    (ho : OpenedAt sys d flags s f s') (hflags : s'.flags = s.flags) (hh : Holds sys.dev v)
    (hlog : v.logBlockSize = s.volume.logBlockSize) (hentry : entries key)
    (hfl : fl = (record sys.dev.disc (place s.volume key)).flags) :
    ∃ res d' t, (match dentryGet sys d key fl { s' with volume := v } with
        | (none, s) => quit (.error .enomem) f d s
        | (some child, s) => quit (.ok ()) f child (dput d s)) = some (res, d', t) ∧
      Walking sys entries c₀ files t d' := by
  have hlive := hw.cursor.live
  have hne : key :: d ≠ d := List.cons_ne_self key d
  have hchild : s'.counts.references (key :: d) = s.counts.references (key :: d) := by
    rw [ho.counts, RefTree.get_references_of_ne hne]
  rw [dentryGet]
  by_cases hzero : s.counts.references (key :: d) = 0
  · rw [if_pos (hchild.trans hzero)]
    by_cases hmemory : sys.memory s'.allocs = true
    · have hcursor := hw.cursor.new hzero
      have hseq : RefTree.put d (RefTree.put d (RefTree.get (key :: d) (RefTree.get d s'.counts))) =
          RefTree.get (key :: d) s.counts := by rw [ho.counts, RefTree.put_put_get_new hlive]
      rw [if_pos hmemory]
      refine ⟨_, _, _, quit_eq ho (key :: d) _ ho.files ?_, hh, hw.tree.congr hlog, ?_, ?_, hw.files⟩
      · exact hseq ▸ hcursor.closed key d hcursor.live
      · intro key' p hk
        change (RefTree.put d (RefTree.put d (RefTree.get (key :: d) (RefTree.get d s'.counts)))).references _ ≠ 0 at hk
        rw [hseq] at hk
        change entries key' ∧ Function.update s'.flags (key :: d) fl (key' :: p) = (record _ (place v key')).flags
        rw [place_congr hlog]
        by_cases heq : key' :: p = key :: d
        · rw [heq, Function.update_self]
          cases heq
          exact ⟨hentry, hfl⟩
        · rw [Function.update_of_ne heq, hflags]
          rw [RefTree.get_references_of_ne heq] at hk
          exact hw.cached key' p hk
      · exact hseq ▸ hcursor
    · rw [if_neg hmemory]
      obtain ⟨t, hquit, hwt⟩ := quit_walking hw ho hflags (.error .enomem) hh hlog (s'.allocs + 1)
      exact ⟨_, _, t, hquit, hwt⟩
  · have hcursor := hw.cursor.old hzero
    have hseq : RefTree.put d (RefTree.put d (RefTree.get (key :: d) s'.counts)) =
        RefTree.put d (RefTree.get (key :: d) s.counts) := by rw [ho.counts, RefTree.put_put_get_old hlive]
    rw [if_neg (hchild ▸ hzero)]
    refine ⟨_, _, _, quit_eq ho (key :: d) _ ho.files ?_, hh, hw.tree.congr hlog, ?_, ?_, hw.files⟩
    · exact hseq ▸ hcursor.closed key d hcursor.live
    · refine hw.cached.congr hlog hflags fun key' p hk => ?_
      change (RefTree.put d (RefTree.put d (RefTree.get (key :: d) s'.counts))).references _ ≠ 0 at hk
      rw [hseq] at hk
      have hle := RefTree.put_references_le d (key' :: p) (RefTree.get (key :: d) s.counts)
      obtain heq | hne := RefTree.get_references_ne_zero (fun hzero => hk (Nat.le_zero.mp (hzero ▸ hle)))
      · rwa [heq]
      · exact hne
    · exact hseq ▸ hcursor

theorem lookup_walking (hw : Walking sys entries c₀ files s d) (fn : ℕ → Byte) (fnsize : ℕ) :
    ∃ res d' s', lookup sys d fn fnsize s = some (res, d', s') ∧ Walking sys entries c₀ files s' d' := by
  rw [lookup.eq_def]
  by_cases hdot : fnsize = 0 ∨ fnsize = 1 ∧ fn 0 = 0x2E
  · rw [if_pos hdot]
    exact ⟨_, _, _, rfl, hw⟩
  · rw [if_neg hdot]
    by_cases hdots : fnsize = 2 ∧ fn 0 = 0x2E ∧ fn 1 = 0x2E
    · rw [if_pos hdots]
      cases d with
      | nil => exact ⟨_, _, _, rfl, hw⟩
      | cons key parent =>
        refine ⟨_, _, _, rfl, hw.holds, hw.tree, ?_, hw.cursor.parent, hw.files⟩
        refine hw.cached.congr rfl rfl fun key' p hk => ?_
        have hle := RefTree.put_references_le (key :: parent) (key' :: p) (RefTree.get parent s.counts)
        obtain heq | hne := RefTree.get_references_ne_zero (fun hzero => hk (Nat.le_zero.mp (hzero ▸ hle)))
        · rw [heq]
          exact hw.cursor.closed key parent hw.cursor.live
        · exact hne
    · rw [if_neg hdots]
      obtain ⟨res, s₁, hopen, hh₁, hlog₁, hflags₁, ⟨e, rfl, hcounts, hfiles⟩ | ⟨f, rfl, ho⟩⟩ :=
        open_cases hw (oRdonly ||| oDirectory)
      · rw [hopen]
        refine ⟨_, _, _, rfl, hh₁, hw.tree.congr hlog₁, ?_, hcounts ▸ hw.cursor, hfiles.trans hw.files⟩
        refine hw.cached.congr hlog₁ hflags₁ fun key p hk => ?_
        rwa [hcounts] at hk
      · rw [hopen]
        dsimp only
        cases hname : buildFcbName fn fnsize false with
        | error e =>
          obtain ⟨t, hquit, hwt⟩ := quit_walking hw ho hflags₁ (.error e) hh₁ hlog₁ s₁.allocs
          exact ⟨_, _, t, hquit, hwt⟩
        | ok fnfcb =>
          dsimp only
          obtain ⟨ps, hd, hstart, hreads, hentries⟩ := ho.readable hw
          have hpointer : f.file.filePointer = 0 := by
            rw [ho.file]
            cases d <;> rfl
          have hstart₁ : start f.file s₁.volume = start f.file s.volume := start_congr f.file hlog₁
          obtain ⟨res, v, hloop, hh, hlog, hkey⟩ := lookupLoop_laid fn fnsize fnfcb hd.laid (hd.congr hlog₁) hh₁
            (by rw [hstart₁]) (by rw [hstart₁, hstart]) (by rwa [blockSize_congr hlog₁]) (by rwa [blockSize_congr hlog₁])
            (by rw [hstart₁]; rfl) hpointer (Nat.lt_succ_self f.file.dataLength)
          rw [hloop]
          have hlog' := hlog.trans hlog₁
          cases res with
          | error e =>
            obtain ⟨t, hquit, hwt⟩ := quit_walking hw ho hflags₁ (.error e) hh hlog' s₁.allocs
            exact ⟨_, _, t, hquit, hwt⟩
          | ok found =>
            obtain ⟨hentry, hfl⟩ := hkey found.1 found.2 rfl
            rw [place_congr hlog₁] at hfl
            exact found_walking hw ho hflags₁ hh hlog' hentry hfl

end Lookup

section Resolve

theorem span_pos (pn : ℕ → Byte) {n : ℕ} (hn : n ≠ 0) :
    0 < span true pn n + span false (fun i => pn (span true pn n + i)) (n - span true pn n) := by
  obtain ⟨n, rfl⟩ : ∃ m, n = m + 1 := ⟨n - 1, by omega⟩
  by_cases hsep : pn 0 = pathSep
  · have hspan : span true pn (n + 1) = span true (fun i => pn (i + 1)) n + 1 := by
      rw [span, if_pos (by simp [hsep])]
    omega
  · have hspan : span true pn (n + 1) = 0 := by
      rw [span, if_neg (by simp [hsep])]
    rw [hspan]
    have hrest : span false (fun i => pn (0 + i)) (n + 1 - 0) = span false (fun i => pn (0 + (i + 1))) n + 1 := by
      rw [Nat.sub_zero, span, if_pos (by simp [hsep])]
    rw [hrest]
    exact Nat.succ_pos _

theorem resolveLoop_walking (fuel : ℕ) (hw : Walking sys entries c₀ files s d) (pn : ℕ → Byte) (pnsize : ℕ) (hfuel : pnsize < fuel) :
    ∃ res d' s', resolveLoop sys fuel pn pnsize d s = some (res, d', s') ∧ Walking sys entries c₀ files s' d' := by
  induction fuel generalizing s d pn pnsize with
  | zero => cases hfuel
  | succ fuel ih =>
    rw [resolveLoop]
    by_cases hzero : pnsize = 0
    · rw [if_pos hzero]
      exact ⟨_, d, s, rfl, hw⟩
    · rw [if_neg hzero]
      have hpos := span_pos pn hzero
      obtain ⟨res, d', s', hlookup, hw'⟩ := lookup_walking hw (fun i => pn (span true pn pnsize + i))
        (span false (fun i => pn (span true pn pnsize + i)) (pnsize - span true pn pnsize))
      dsimp only
      rw [hlookup]
      cases res with
      | error e => exact ⟨_, d', s', rfl, hw'⟩
      | ok u => exact ih hw' _ _ (by omega)

theorem resolvePath_walking (hw : Walking sys entries c₀ files s d) (pn : ℕ → Byte) (pnsize : ℕ) :
    ∃ res d' s', resolvePath sys pn pnsize d s = some (res, d', s') ∧ Walking sys entries c₀ files s' d' :=
  resolveLoop_walking (pnsize + 1) hw pn pnsize (Nat.lt_succ_self pnsize)

end Resolve

section Result

variable {pn : ℕ → Byte} {pnsize : ℕ}

/-- The directory of the pathname is found, its last component is not, and it is to be created. -/
def Missing (sys : System) (dentry : Path) (pn : ℕ → Byte) (pnsize flags : ℕ) (s : State) : Prop :=
  pnsize ≠ 0 ∧ flags &&& oCreat ≠ 0 ∧ ∃ d s₁ d' s₂,
    resolvePath sys pn (getBaseName pn pnsize) dentry (dget dentry s) = some (.ok (), d, s₁) ∧
      resolvePath sys (fun i => pn (getBaseName pn pnsize + i)) (pnsize - getBaseName pn pnsize) d s₁ =
        some (.error .enoent, d', s₂)

/-- A result that is not negative comes with an open file; any other one leaves the references and the open files. -/
def OpenRight (sys : System) (dentry : Path) (pn : ℕ → Byte) (pnsize flags : ℕ) (s : State) : Prop :=
  ∃ res file s', openPr sys dentry pn pnsize flags s = some (res, file, s') ∧
    ((∃ n, res = .ok n) ↔ ∃ f, file = some f ∧ f.references = 1 ∧ s'.filesOpen = f :: s.filesOpen) ∧
    (∀ e, res = .error e → s'.counts = s.counts ∧ s'.filesOpen = s.filesOpen) ∧ fsOpen (res, file, s') ≠ some none

theorem Sound.start (h : Sound sys entries s) (hd : s.counts.references d ≠ 0) :
    Walking sys entries s.counts s.filesOpen (dget d s) d := by
  refine ⟨h.holds, h.tree, ?_, Cursor.start h.closed hd, rfl⟩
  refine h.cached.congr rfl rfl fun key p hk => ?_
  obtain heq | hne := RefTree.get_references_ne_zero hk
  · rwa [heq]
  · exact hne

theorem Walking.end_sound (hw : Walking sys entries c₀ files s d) : Sound sys entries (dput d s) := by
  refine ⟨hw.holds, hw.tree, ?_, ?_⟩
  · refine hw.cached.congr rfl rfl fun key p hk => ?_
    have hle := RefTree.put_references_le d (key :: p) s.counts
    exact fun hzero => hk (Nat.le_zero.mp (hzero ▸ hle))
  · exact (hw.cursor.back ▸ hw.cursor.before : Closed (RefTree.put d s.counts))

theorem missing_iff (flags : ℕ) {res : Except Errno Unit} {d₁ d₂ : Path} {s₁ s₂ : State} (hsize : pnsize ≠ 0)
    (hdir : resolvePath sys pn (getBaseName pn pnsize) d (dget d s) = some (.ok (), d₁, s₁))
    (hbase : resolvePath sys (fun i => pn (getBaseName pn pnsize + i)) (pnsize - getBaseName pn pnsize) d₁ s₁ =
      some (res, d₂, s₂)) : Missing sys d pn pnsize flags s ↔ res = .error .enoent ∧ flags &&& oCreat ≠ 0 := by
  constructor
  · rintro ⟨-, hcreat, d', s', d'', s'', hdir', hbase'⟩
    rw [hdir] at hdir'
    cases hdir'
    rw [hbase] at hbase'
    cases hbase'
    exact ⟨rfl, hcreat⟩
  · rintro ⟨rfl, hcreat⟩
    exact ⟨hsize, hcreat, d₁, s₁, d₂, s₂, hdir, hbase⟩

theorem openPr_cases (h : Sound sys entries s) (hd : s.counts.references d ≠ 0) (pn : ℕ → Byte) (pnsize flags : ℕ) :
    ∃ res file s', openPr sys d pn pnsize flags s = some (res, file, s') ∧ Sound sys entries s' ∧
      ((∃ e, res = .error e ∧ file = none ∧ s'.counts = s.counts ∧ s'.filesOpen = s.filesOpen ∧
          ¬Missing sys d pn pnsize flags s) ∨
        (∃ f, res = .ok orOpen ∧ file = some f ∧ f.references = 1 ∧ s'.filesOpen = f :: s.filesOpen ∧
          ¬Missing sys d pn pnsize flags s) ∨
        (res = .ok eRofs ∧ file = none ∧ s'.filesOpen = s.filesOpen ∧ Missing sys d pn pnsize flags s)) := by
  rw [openPr]
  by_cases hsize : pnsize = 0
  · rw [if_pos hsize]
    exact ⟨_, _, s, rfl, h, .inl ⟨_, rfl, rfl, rfl, rfl, fun hm => hm.1 hsize⟩⟩
  · rw [if_neg hsize]
    obtain ⟨res₁, d₁, s₁, hdir, hw₁⟩ := resolvePath_walking (h.start hd) pn (getBaseName pn pnsize)
    dsimp only
    rw [hdir]
    cases res₁ with
    | error e =>
      refine ⟨_, _, _, rfl, hw₁.end_sound, .inl ⟨e, rfl, rfl, hw₁.cursor.back, hw₁.files, ?_⟩⟩
      rintro ⟨-, -, d', s', d'', s'', hdir', -⟩
      rw [hdir] at hdir'
      cases hdir'
    | ok u =>
      obtain ⟨res₂, d₂, s₂, hbase, hw₂⟩ := resolvePath_walking hw₁ (fun i => pn (getBaseName pn pnsize + i))
        (pnsize - getBaseName pn pnsize)
      have hmissing := missing_iff flags hsize hdir hbase
      dsimp only
      rw [hbase]
      cases res₂ with
      | error e =>
        dsimp only
        by_cases hcreat : e = .enoent ∧ flags &&& oCreat ≠ 0
        · rw [if_pos hcreat]
          exact ⟨_, _, _, rfl, hw₂.end_sound, .inr (.inr ⟨rfl, rfl, hw₂.files, hmissing.mpr ⟨hcreat.1 ▸ rfl, hcreat.2⟩⟩)⟩
        · rw [if_neg hcreat]
          refine ⟨_, _, _, rfl, hw₂.end_sound, .inl ⟨e, rfl, rfl, hw₂.cursor.back, hw₂.files, fun hm => ?_⟩⟩
          exact hcreat ⟨Except.error.inj (hmissing.mp hm).1, (hmissing.mp hm).2⟩
      | ok u =>
        have hnot : ¬Missing sys d pn pnsize flags s := fun hm => nomatch (hmissing.mp hm).1
        dsimp only
        split
        · exact ⟨_, _, _, rfl, hw₂.end_sound, .inl ⟨_, rfl, rfl, hw₂.cursor.back, hw₂.files, hnot⟩⟩
        · obtain ⟨res₃, s₃, hopen, hh₃, hlog₃, hflags₃, ⟨e, rfl, hcounts, hfiles⟩ | ⟨f, rfl, ho⟩⟩ := open_cases hw₂ flags
          · have hw₃ : Walking sys entries s.counts s.filesOpen s₃ d₂ := by
              refine ⟨hh₃, hw₂.tree.congr hlog₃, ?_, hcounts ▸ hw₂.cursor, hfiles.trans hw₂.files⟩
              refine hw₂.cached.congr hlog₃ hflags₃ fun key p hk => ?_
              rwa [hcounts] at hk
            rw [hopen]
            exact ⟨_, _, _, rfl, hw₃.end_sound, .inl ⟨e, rfl, rfl, hw₃.cursor.back, hw₃.files, hnot⟩⟩
          · have hput : RefTree.put d₂ s₃.counts = s₂.counts := by rw [ho.counts, RefTree.put_get hw₂.cursor.live]
            rw [hopen]
            dsimp only
            rw [if_neg (not_not.mpr ho.trunc)]
            have hclosed : Closed (RefTree.put d₂ s₃.counts) := by
              rw [hput]
              exact hw₂.cursor.closed
            refine ⟨_, _, _, rfl, ⟨hh₃, hw₂.tree.congr hlog₃, ?_, hclosed⟩, .inr (.inl ⟨f, rfl, rfl,
              ho.references, ho.files.trans (by rw [hw₂.files]), hnot⟩)⟩
            refine hw₂.cached.congr hlog₃ hflags₃ fun key p hk => ?_
            change (RefTree.put d₂ s₃.counts).references _ ≠ 0 at hk
            rwa [hput] at hk

/-- The result is right unless a file is to be created that is not there. -/
theorem openPr_right_iff (sys : System) (entries : Key → Prop) (s : State) (h : Sound sys entries s) (d : Path)
    (hd : s.counts.references d ≠ 0) (pn : ℕ → Byte) (pnsize flags : ℕ) :
    OpenRight sys d pn pnsize flags s ↔ ¬Missing sys d pn pnsize flags s := by
  obtain ⟨res, file, s', hopen, -, hcases⟩ := openPr_cases h hd pn pnsize flags
  obtain ⟨e, rfl, rfl, hcounts, hfiles, hnot⟩ | ⟨f, rfl, rfl, hreferences, hfiles, hnot⟩ | ⟨rfl, rfl, -, hmissing⟩ := hcases
  · refine iff_of_true ⟨_, _, s', hopen, iff_of_false (fun h => nomatch h) (fun h => nomatch h), ?_, (fun h => nomatch h)⟩ hnot
    exact fun _ _ => ⟨hcounts, hfiles⟩
  · refine iff_of_true ⟨_, _, s', hopen, iff_of_true ⟨_, rfl⟩ ⟨f, rfl, hreferences, hfiles⟩, (fun e he => nomatch he), ?_⟩ hnot
    exact fun h => nomatch h
  · refine iff_of_false ?_ (not_not.mpr hmissing)
    rintro ⟨res, file, s'', hopen', hiff, -⟩
    rw [hopen] at hopen'
    cases hopen'
    obtain ⟨f, hf, -⟩ := hiff.mp ⟨_, rfl⟩
    cases hf

def oneSystem : System := ⟨oneRecord, ⟨21, 0, 2048, ⟨0, 0, 0, 0, 0, 0⟩⟩, fun _ => true⟩

def oneState : State := ⟨mounted 11 fun _ => 0, ⟨fun p => if p = [] then 1 else 0, 1⟩, fun _ => flDir, [], 0⟩

theorem oneState_sound : Sound oneSystem (· = (21, 0)) oneState := by
  refine ⟨mounted_holds _ (by decide), ⟨?_, ?_, ?_⟩, fun key p h => absurd rfl h, fun key p h => absurd rfl h⟩
  · rintro _ rfl
    exact ⟨rfl, by decide, by decide, by decide, by decide, fun i j hi => absurd hi (Nat.not_lt_zero i)⟩
  · refine ⟨[43008], oneRecord_directory rfl rfl, by decide, ⟨by decide, ?_⟩, ?_⟩
    · rw [List.forall_mem_singleton]
      decide
    · rw [List.forall_mem_singleton]
      rfl
  · rintro _ rfl hdir
    exact absurd rfl hdir

theorem openPr_right_iff_sample : OpenRight oneSystem [] (fun _ => 0x41) 1 oRdonly oneState :=
  (openPr_right_iff oneSystem _ oneState oneState_sound [] Nat.one_ne_zero (fun _ => 0x41) 1 oRdonly).mpr fun h => h.2.1 rfl

/-- With `O_CREAT` the result for a name that is not there is 30, and no file is stored. -/
theorem openPr_not_right : ¬OpenRight oneSystem [] (fun _ => 0x41) 1 oCreat oneState := by
  rintro ⟨res, file, s', hopen, hiff, -⟩
  have hresult : (openPr oneSystem [] (fun _ => 0x41) 1 oCreat oneState).map (fun r => (r.1, r.2.1)) = some (.ok 30, none) := rfl
  rw [hopen] at hresult
  cases hresult
  obtain ⟨f, hf, -⟩ := hiff.mp ⟨30, rfl⟩
  cases hf

end Result

end FreeDos32.Iso9660
