import FreeDos32.Fat.DirRemoval
import FreeDos32.Fat.Resolve

namespace FreeDos32.Fat

open Prog

variable {G : Layout} {v : Volume} {d k : ℕ} {hd hf : ℕ → ℕ}

section Sound

/-- What removing a directory has to do: it is removed if nothing in it is in use, else `ENOTEMPTY` is returned and nothing
changed. -/
def RmdirSound (G : Layout) (v : Volume) (d k : ℕ) : Prop :=
  (Occupied (G.slot v ((books v).nodeAddr d)) 2 →
      ∃ t, (fatRmdir d).run v = (.error .enotempty, t) ∧ Tidy G t ∧ Flushed v t) ∧
    (¬Occupied (G.slot v ((books v).nodeAddr d)) 2 → ∃ t, (fatRmdir d).run v = (.ok (), t) ∧ Removed G v d k t)

theorem RmdirSound.not_error {e : Errno} {t : Volume} (h : RmdirSound G v d k) (hrun : (fatRmdir d).run v = (.error e, t)) :
    e = .enotempty := by
  by_cases hocc : Occupied (G.slot v ((books v).nodeAddr d)) 2
  · obtain ⟨x, hx, -⟩ := h.1 hocc
    rw [hrun] at hx
    cases hx
    rfl
  · obtain ⟨x, hx, -⟩ := h.2 hocc
    rw [hrun] at hx
    cases hx

variable (h : Removable G hd hf v d k)

include h

theorem Removable.run (hwr : hasAttr (v.dentries k).attr fatARdonly = false) (hmem : v.env.oom v.ticks = false)
    (hmem' : v.env.oom (v.ticks + 1) = false) : ∃ r t, (fatRmdir d).run v = (r, t) ∧
      Finding (G.slot v ((books v).nodeAddr d)) 2 r ∧ (∀ e, r = .error e → Tidy G t ∧ Flushed v t) ∧
      (r = .ok () → Removed G v d k t) := by
  obtain ⟨cp, c, u, w, hrun, hrun', he⟩ := h.enter hwr hmem hmem'
  obtain ⟨r, x, hcheck, hx, -, hfind⟩ := h.check he
  have hstart := h.run_enter hrun hrun'
  cases r with
  | ok =>
    have hno : ¬Occupied (G.slot v ((books v).nodeAddr d)) 2 := fun hocc => by cases hfind.1 hocc
    obtain ⟨t, ht, hremoved⟩ := h.run_ok hno he hx hcheck
    refine ⟨_, t, hstart.trans ht, hfind, fun e he => ?_, fun _ => hremoved⟩
    cases he
  | error e =>
    obtain ⟨t, ht, htidy, hflush⟩ := h.run_error he hx hcheck
    refine ⟨_, t, hstart.trans ht, hfind, fun _ _ => ⟨htidy, hflush⟩, fun hok => ?_⟩
    cases hok
  | hang =>
    by_cases hocc : Occupied (G.slot v ((books v).nodeAddr d)) 2
    · cases hfind.1 hocc
    · by_cases hend : EndMarked (G.slot v ((books v).nodeAddr d)) 2
      · cases hfind.2.1 hocc hend
      · cases hfind.2.2 hocc hend

theorem Removable.run_denied (hro : hasAttr (v.dentries k).attr fatARdonly = true) :
    (fatRmdir d).run v = (.error .eacces, v) := by
  have hden := h.denies_parent
  rw [if_pos hro] at hden
  have hopen : (fatOpen k (oWronly ||| oDirectory)).run v = (.error .eacces, v) := by
    rw [fatOpen, run_bind_state, hden]
    rfl
  rw [fatRmdir, fatRemove, run_bind_state, h.parent]
  exact run_bind_error hopen

theorem Removable.run_enomem (hwr : hasAttr (v.dentries k).attr fatARdonly = false)
    (hoom : v.env.oom v.ticks = true ∨ v.env.oom (v.ticks + 1) = true) : ∃ t, (fatRmdir d).run v = (.error .enomem, t) := by
  rw [fatRmdir, fatRemove, run_bind_state, h.parent]
  dsimp only
  cases hmem : v.env.oom v.ticks with
  | true =>
    have hden : (v.dentries k).denies (oWronly ||| oDirectory) = none := by
      rw [h.denies_parent, hwr]
      rfl
    obtain ⟨t, hrun⟩ := (fatOpen_memory h.tidy (h.openable h.tidy h.hasParent h.parentOk.2.1) hden).1 hmem
    exact ⟨t, run_bind_error hrun⟩
  | false =>
    obtain ⟨cp, u, hrun, hu, hticks, -, hcu, hnode, hop⟩ := h.half hwr hmem
    have hoom' : u.env.oom u.ticks = true := by
      rw [hu.env, hticks]
      exact hoom.resolve_left (by rw [hmem]; exact Bool.false_ne_true)
    obtain ⟨r, w, hrun', hr⟩ := fatOpen_cases hu.tidy hcu hop h.stale 0
    obtain ⟨x, hx⟩ := (fatOpen_memory hu.tidy hop (denies_self _)).1 hoom'
    rw [hrun'] at hx
    cases hx
    have hcw := fatOpen_counts d 0 u ⟨hcu, hnode⟩
    rw [hrun'] at hcw
    have hinfo : (w.channels cp).info = ⟨(u.channels cp).f, true, oWronly ||| oDirectory, 1, some k⟩ := by
      rw [hr.1.channels]
      exact hu.info
    obtain ⟨y, hclose, -⟩ := fatClose_run hr.1.tidy hcw (by rw [hr.1.channelsOpen]; exact hu.mem)
      (by simp [h.settled.goneFiles]) (congrArg ChannelInfo.magic hinfo)
      (by rw [show (w.channels cp).references = 1 from congrArg ChannelInfo.references hinfo]; decide)
    refine ⟨y, ?_⟩
    rw [run_bind_ok hrun]
    refine run_bind_error (run_orClose_error hrun' ?_)
    rw [closeAll, run_bind_ok (run_attempt_ok hclose)]
    rfl

end Sound

section Folder

variable (b : UInt8)

def folderEntry : Direntry :=
  Direntry.ofBytes ([0x44] ++ List.replicate 10 0x20 ++ [fatADir] ++ List.replicate 14 0 ++ [0x02, 0x00, 0x00, 0x00, 0x00, 0x00])

def folderDots : List UInt8 :=
  dotName ++ [fatADir] ++ List.replicate 14 0 ++ [0x02, 0x00, 0x00, 0x00, 0x00, 0x00] ++
    dotdotName ++ [fatADir] ++ List.replicate 20 0

/-- The disk has a directory in its root, with `b` as the first byte of all its entries but the first two. -/
def folderDevice : ℕ → SectorData := fun s i =>
  if s = 1 ∨ s = 2 then [0xF8, 0xFF, 0xFF, 0xFF, 0x0F].getD i 0
  else if s = 3 then folderEntry.toBytes.getD i 0
  else if s = 4 then folderDots.getD i (if i % 32 = 0 then b else 0)
  else 0

def folderBytes (a : ℕ) : UInt8 := folderDevice b (a / 512) (a % 512)

def folderVolume : Volume :=
  ((dentryGet rootDentry 0 3 fatADir 0).run (freshVolume letterGeometry quietEnv (folderDevice b) 10 5)).2

def folderLayout : Layout := { letterLayout with reserved := fatEntry letterGeometry (folderBytes b) }

theorem folderVolume_counts : Counts (hold 1 fun _ => 0) (fun _ => 0) [] (folderVolume b) := by
  have hopen : NothingOpen (freshVolume letterGeometry quietEnv (folderDevice b) 10 5) :=
    ⟨rfl, ⟨rfl, rfl, rfl⟩, rfl, rfl, rfl, fun _ => rfl, Nat.one_pos⟩
  exact dentryGet_counts rootDentry 0 3 0 fatADir _ ⟨hopen.settled, List.mem_cons_self⟩

theorem folderVolume_sound : Sound (folderVolume b) :=
  Sound.of_same (v := freshVolume letterGeometry quietEnv (folderDevice b) 10 5)
    ⟨freshVolume_mediaOk .., (letterVolume_sound 0 0).geo⟩ rfl rfl

theorem folder_rootAddr : (books (folderVolume b)).nodeAddr rootDentry = 0 := by
  change (⟨none, 0, 0, fatADir, 0⟩ : NodeInfo).addr letterGeometry = 0
  rfl

theorem folder_nodeAddr : (books (folderVolume b)).nodeAddr 1 = 1536 := by
  change (⟨some rootDentry, 3, 0, fatADir, 0⟩ : NodeInfo).addr letterGeometry = 1536
  rfl

theorem folderBytes_entry {i : ℕ} (h : i < 512) : folderBytes b (1536 + i) = folderEntry.toBytes.getD i 0 := by
  have hdiv : (1536 + i) / 512 = 3 := by omega
  have hmod : (1536 + i) % 512 = i := by omega
  rw [folderBytes, hdiv, hmod]
  rfl

theorem folderBytes_dots {i : ℕ} (h : i < 512) : folderBytes b (2048 + i) = folderDots.getD i (if i % 32 = 0 then b else 0) := by
  have hdiv : (2048 + i) / 512 = 4 := by omega
  have hmod : (2048 + i) % 512 = i := by omega
  rw [folderBytes, hdiv, hmod]
  rfl

theorem folderBytes_past {n : ℕ} (hn : 2 ≤ n) (hlt : n < 16) : slotAt (folderBytes b) (2048 + 32 * n) 0 = b := by
  rw [slotAt, Nat.add_zero, folderBytes_dots b (by omega), List.getD_eq_getElem?_getD, List.getElem?_eq_none]
  · simp
  · change 64 ≤ 32 * n
    omega

theorem folder_isDir : IsDir (folderBytes b) 1536 := by
  right
  change hasAttr folderEntry.attr fatADir = true
  decide

theorem folderBytes_low {a : ℕ} (h : a < 1536) : folderBytes b a = letterBytes a := by
  have hne : a / 512 ≠ 3 ∧ a / 512 ≠ 4 := by omega
  simp only [folderBytes, letterBytes, folderDevice, letterDevice, if_neg hne.1, if_neg hne.2]

theorem folder_entry {n : ℕ} (hn : n ≤ 7) : table letterGeometry (folderBytes b) n = table letterGeometry letterBytes n :=
  fatEntry_outside (letterVolume_sound 0 0).geo (by decide) hn fun _ hq => folderBytes_low b hq

theorem folder_live : (slotAt (folderBytes b) 1536).Live := by
  have hbytes : ∀ i < 32, slotAt (folderBytes b) 1536 i = folderEntry i := fun i hi => by
    rw [slotAt, folderBytes_entry b (by omega), toBytes_getD _ hi]
  have hname : (slotAt (folderBytes b) 1536).name = folderEntry.name := rfl
  have hattr : (slotAt (folderBytes b) 1536).attr = folderEntry.attr := rfl
  unfold Direntry.Live
  rw [hname, hattr, hbytes 0 (by decide)]
  decide

theorem folder_dir {a : ℕ} : a ∈ letterLayout.owners ∧ IsDir (folderBytes b) a ↔ a = 0 ∨ a = 1536 := by
  constructor
  · exact fun h => h.1
  · rintro (rfl | rfl)
    · exact ⟨.inl rfl, .inl rfl⟩
    · exact ⟨.inr rfl, folder_isDir b⟩

theorem folder_at {pos p : ℕ} (h : (folderLayout b).at letterGeometry 1536 pos = some p) : pos < 512 ∧ p = 2048 + pos := by
  rw [Layout.at, posAddr, if_neg (by decide)] at h
  change ([2] : List ℕ)[pos / 512]?.map (fun k => letterGeometry.clusterAddr k + pos % 512) = some p at h
  rcases Nat.lt_or_ge pos 512 with hlt | hge
  · rw [Nat.div_eq_of_lt hlt, Nat.mod_eq_of_lt hlt] at h
    exact ⟨hlt, (Option.some.inj h).symm⟩
  · rw [List.getElem?_eq_none (show [2].length ≤ pos / 512 from (Nat.one_le_div_iff (by decide)).mpr hge)] at h
    cases h

theorem folder_slot {n : ℕ} (h : n < 16) :
    (folderLayout b).slot (folderVolume b) 1536 n = some (slotAt (folderBytes b) (2048 + 32 * n)) := by
  have hdiv : 32 * n / letterGeometry.bytesPerCluster = 0 := Nat.div_eq_of_lt (show 32 * n < 512 by omega)
  have hmod : 32 * n % letterGeometry.bytesPerCluster = 32 * n := Nat.mod_eq_of_lt (show 32 * n < 512 by omega)
  rw [Layout.slot, Layout.at, posAddr, if_neg fun h0 => absurd h0.1 (by decide)]
  change Option.map _ (([2] : List ℕ)[32 * n / letterGeometry.bytesPerCluster]?.map fun k =>
    letterGeometry.clusterAddr k + 32 * n % letterGeometry.bytesPerCluster) = _
  rw [hdiv, hmod]
  rfl

theorem folder_slot_none {n : ℕ} (h : 16 ≤ n) : (folderLayout b).slot (folderVolume b) 1536 n = none := by
  rw [Layout.slot, Option.map_eq_none_iff, Option.eq_none_iff_forall_ne_some]
  intro p hp
  have hlt := (folder_at b hp).1
  omega

theorem folder_notReadOnly : hasAttr ((folderVolume b).dentries rootDentry).attr fatARdonly = false := by
  change hasAttr fatADir fatARdonly = false
  decide

variable {b} (hb : b = fatEndofdir ∨ b = fatFreeent)

include hb

theorem folder_not_live {n : ℕ} (h : n < 16) : ¬(slotAt (folderBytes b) (2048 + 32 * n)).Live := by
  intro hlive
  rcases Nat.lt_or_ge n 2 with hlt | hge
  · rcases Nat.le_one_iff_eq_zero_or_eq_one.mp (Nat.le_of_lt_succ hlt) with rfl | rfl
    · exact hlive.2.2.2.1 rfl
    · exact hlive.2.2.2.2 rfl
  · have hfirst := folderBytes_past b hge h
    rcases hb with rfl | rfl
    · exact hlive.2.1 hfirst
    · exact hlive.1 hfirst

theorem folder_entries : Entries (folderLayout b) letterGeometry (folderBytes b) where
  root := .inl rfl
  slots a ha hdir pos p halign hat hlive := by
    obtain ⟨n, rfl⟩ := halign
    rcases (folder_dir b).mp ⟨ha, hdir⟩ with rfl | rfl
    · obtain ⟨hpos, rfl⟩ := letter_root hat
      by_cases h0 : n = 0
      · subst h0
        exact .inl (.inr rfl)
      · refine absurd ?_ hlive.2.1
        rw [slotAt, Nat.add_zero, folderBytes_entry b hpos, List.getD_eq_getElem?_getD, List.getElem?_eq_none]
        · rfl
        · rw [length_toBytes]
          omega
    · obtain ⟨hpos, rfl⟩ := folder_at b hat
      exact absurd hlive (folder_not_live hb (by omega))
  linked := by
    rintro p (rfl | rfl) h0 -
    · exact absurd rfl h0
    · exact folder_live b
  inside := by
    rintro p (rfl | rfl) h0
    · exact absurd rfl h0
    · exact ⟨0, .inl rfl, .inl rfl, 0, by decide, rfl⟩
  size a ha hdir pos p hat := by
    rcases (folder_dir b).mp ⟨ha, hdir⟩ with rfl | rfl
    · have := (letter_root hat).1
      omega
    · have := (folder_at b hat).1
      omega

theorem folderVolume_tidy : Tidy (folderLayout b) (folderVolume b) where
  sound := folderVolume_sound b
  order := by
    have hattr : hasAttr fatADir fatADir = true := by decide
    have hfiles : FilesOk (folderLayout b) (books (folderVolume b)) (folderBytes b) := by
      refine ⟨by rintro f ⟨⟩, by rintro f ⟨⟩, rfl, ?_⟩
      rintro p (rfl | rfl) h0 - -
      · exact absurd rfl h0
      · have hfirst : folderEntry.firstCluster = 2 := by decide
        refine ⟨hfirst, fun hdir => ?_⟩
        rw [(folder_isDir b).resolve_left h0] at hdir
        cases hdir
    have hnode : NodeOk (folderLayout b) (books (folderVolume b)) (folderBytes b) ⟨some rootDentry, 3, 0, fatADir, 0⟩ := by
      refine ⟨.inr rfl, Nat.le_succ 2, iff_of_true hattr (folder_isDir b), rootDentry, rfl, ?_⟩
      rw [folder_rootAddr]
      exact ⟨.inl rfl, .inl rfl, rfl⟩
    have hnodes : NodesOk (folderLayout b) (books (folderVolume b)) (folderBytes b) := by
      refine ⟨fun d hd _ => ?_, fun d hd d' hd' _ _ _ => ?_, ⟨rfl, rfl, hattr, rfl⟩, by rintro c ⟨⟩⟩
      · rw [List.mem_singleton.mp hd]
        exact hnode
      · rw [List.mem_singleton.mp hd, List.mem_singleton.mp hd']
    have hchains : Chains (table letterGeometry (folderBytes b)) fatEoc letterGeometry.InRange (folderLayout b).owners
        (folderLayout b).chain := by
      refine ⟨?_, letter_chains.ok, letter_chains.nodup, letter_chains.disjoint⟩
      rintro a (rfl | rfl)
      · trivial
      · exact (folder_entry b (by decide)).trans (letter_chains.links 1536 (.inr rfl))
    have hfree : 5 = zeros letterGeometry (folderBytes b) := by
      refine letterRoot_tidy.order.free.trans (zeros_same fun n hn => ?_).symm
      change table letterGeometry (folderBytes b) n = 0 ↔ table letterGeometry letterBytes n = 0
      rw [folder_entry b hn.2]
    exact ⟨⟨folder_entries hb, hfiles, hnodes, False.elim⟩, hchains, fun _ _ _ _ => rfl, hfree⟩
  cursors := by rintro c ⟨⟩

theorem folder_not_inUse {n : ℕ} (hn : 2 ≤ n) {de : Direntry} (hs : (folderLayout b).slot (folderVolume b) 1536 n = some de) :
    ¬de.InUse := by
  intro huse
  rcases Nat.lt_or_ge n 16 with hlt | hge
  · rw [folder_slot b hlt] at hs
    cases hs
    have hfirst := folderBytes_past b hn hlt
    rcases hb with rfl | rfl
    · exact huse.2.2 hfirst
    · exact huse.2.1 hfirst
  · rw [folder_slot_none b hge] at hs
    cases hs

theorem folder_not_occupied : ¬Occupied ((folderLayout b).slot (folderVolume b) 1536) 2 := by
  rintro ⟨m, hm, ⟨de, hs, huse⟩, -⟩
  exact folder_not_inUse hb hm hs huse

theorem folder_subdirOk : SubdirOk ((folderLayout b).slot (folderVolume b) 1536) where
  dot := ⟨_, folder_slot b (by decide), rfl⟩
  dotdot := ⟨_, folder_slot b (by decide), rfl⟩
  past i m hlt d e hd he hend := by
    rcases Nat.lt_or_ge m 2 with hm | hm
    · obtain rfl : i = 0 := by omega
      rw [folder_slot b (by decide)] at hd
      cases hd
      have hdot : slotAt (folderBytes b) (2048 + 32 * 0) 0 = 0x2E := rfl
      rw [hdot] at hend
      exact absurd hend (by decide)
    · exact folder_not_inUse hb hm he

theorem folderVolume_removable :
    Removable (folderLayout b) (hold 1 fun _ => 0) (fun _ => 0) (folderVolume b) 1 rootDentry where
  tidy := folderVolume_tidy hb
  settled := ⟨rfl, rfl, rfl, rfl, rfl⟩
  counts := folderVolume_counts b
  node := List.mem_singleton.mpr rfl
  parent := rfl
  dir := by
    change hasAttr fatADir fatADir = true
    decide
  contents := by
    rw [folder_nodeAddr]
    exact folder_subdirOk hb
  fits := Nat.le_refl 0
  long n _ hlt := absurd hlt (Nat.not_lt_zero n)
  loop := by
    change 65535 < 2 ^ 33
    decide
  clusters := by
    change 6 ≤ 2 ^ 33
    decide

end Folder

/-- A directory is removed as it has to be unless it has neither an entry in use nor an end mark, its parent is read-only,
or memory runs out. -/
theorem fatRmdir_sound_iff (h : Removable G hd hf v d k) : RmdirSound G v d k ↔
    hasAttr (v.dentries k).attr fatARdonly = false ∧ (v.env.oom v.ticks = false ∧ v.env.oom (v.ticks + 1) = false) ∧
      (Occupied (G.slot v ((books v).nodeAddr d)) 2 ∨ EndMarked (G.slot v ((books v).nodeAddr d)) 2) := by
  constructor
  · intro hsound
    have hwr : hasAttr (v.dentries k).attr fatARdonly = false := by
      by_contra hro
      rw [Bool.not_eq_false] at hro
      cases hsound.not_error (h.run_denied hro)
    have hmem : v.env.oom v.ticks = false ∧ v.env.oom (v.ticks + 1) = false := by
      by_contra hoom
      rw [Classical.not_and_iff_not_or_not, Bool.not_eq_false, Bool.not_eq_false] at hoom
      obtain ⟨t, hrun⟩ := h.run_enomem hwr hoom
      cases hsound.not_error hrun
    refine ⟨hwr, hmem, ?_⟩
    by_contra hnone
    obtain ⟨hocc, hend⟩ := not_or.mp hnone
    obtain ⟨r, t, hrun, hfind, -⟩ := h.run hwr hmem.1 hmem.2
    rw [hfind.2.2 hocc hend] at hrun
    cases hsound.not_error hrun
  · rintro ⟨hwr, ⟨hmem, hmem'⟩, hfound⟩
    obtain ⟨r, t, hrun, hfind, herr, hok⟩ := h.run hwr hmem hmem'
    constructor
    · intro hocc
      have hr := hfind.1 hocc
      exact ⟨t, by rw [hrun, hr], herr _ hr⟩
    · intro hocc
      have hr := hfind.2.1 hocc (hfound.resolve_left hocc)
      exact ⟨t, by rw [hrun, hr], hok hr⟩

/-- A directory that has an end mark is removed. -/
theorem fatRmdir_sound_folder : RmdirSound (folderLayout fatEndofdir) (folderVolume fatEndofdir) 1 rootDentry :=
  (fatRmdir_sound_iff (folderVolume_removable (.inl rfl))).mpr ⟨folder_notReadOnly _, ⟨rfl, rfl⟩,
    .inr (endMarked_of_end (folder_slot _ (by decide)) (folderBytes_past _ (Nat.le_refl 2) (by decide)))⟩

/-- The entries of the directory fill its cluster, and those behind the first two are free. -/
theorem fatRmdir_folder_eio :
    Removable (folderLayout fatFreeent) (hold 1 fun _ => 0) (fun _ => 0) (folderVolume fatFreeent) 1 rootDentry ∧
      ¬Occupied ((folderLayout fatFreeent).slot (folderVolume fatFreeent) 1536) 2 ∧
      (∃ t, (fatRmdir 1).run (folderVolume fatFreeent) = (.error .eio, t)) ∧
      ¬RmdirSound (folderLayout fatFreeent) (folderVolume fatFreeent) 1 rootDentry := by
  have h := folderVolume_removable (b := fatFreeent) (.inr rfl)
  have hocc := folder_not_occupied (b := fatFreeent) (.inr rfl)
  have hend : ¬EndMarked ((folderLayout fatFreeent).slot (folderVolume fatFreeent) 1536) 2 := by
    rintro ⟨m, hm, de, hs, hmark⟩
    rcases Nat.lt_or_ge m 16 with hlt | hge
    · rw [folder_slot _ hlt] at hs
      cases hs
      rw [folderBytes_past _ hm hlt] at hmark
      exact absurd hmark (by decide)
    · rw [folder_slot_none _ hge] at hs
      cases hs
  obtain ⟨r, t, hrun, hfind, -⟩ := h.run (folder_notReadOnly _) rfl rfl
  rw [folder_nodeAddr] at hfind
  rw [hfind.2.2 hocc hend] at hrun
  refine ⟨h, hocc, ⟨t, hrun⟩, fun hsound => ?_⟩
  cases hsound.not_error hrun

end FreeDos32.Fat
