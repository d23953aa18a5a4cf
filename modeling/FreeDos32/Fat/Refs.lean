import Mathlib.Algebra.BigOperators.Group.List.Basic
import Mathlib.Data.List.Perm.Basic
import FreeDos32.Fat.Skeleton

namespace FreeDos32.Fat

def hold (d : ℕ) (h : ℕ → ℕ) : ℕ → ℕ := fun k => if k = d then h k + 1 else h k

theorem hold_comm (a b : ℕ) (h : ℕ → ℕ) : hold a (hold b h) = hold b (hold a h) := by
  funext k
  unfold hold
  split <;> split <;> rfl

theorem hold_self (d : ℕ) (h : ℕ → ℕ) : hold d h d = h d + 1 := if_pos rfl

theorem hold_pos (d : ℕ) (h : ℕ → ℕ) : 0 < hold d h d := by
  rw [hold_self]
  omega

theorem le_hold (d : ℕ) (h : ℕ → ℕ) (k : ℕ) : h k ≤ hold d h k := by
  unfold hold
  split <;> omega

theorem sum_map_hold {l : List ℕ} (hl : l.Nodup) {d : ℕ} (hd : d ∈ l) (f : ℕ → ℕ) :
    (l.map (hold d f)).sum = (l.map f).sum + 1 := by
  have h : ∀ k ∈ l.erase d, hold d f k = f k := fun k hk => if_neg (fun he => by
    subst he
    exact (List.Nodup.not_mem_erase hl) hk)
  rw [← List.sum_map_erase _ hd, ← List.sum_map_erase f hd, List.map_congr_left h, hold_self]
  omega

namespace Skeleton

def nodes (s : Skeleton) : List ℕ := rootDentry :: s.dentriesSlab

def users (s : Skeleton) (d : ℕ) : ℕ := s.channelsOpen.countP fun c => s.dentry c == some d

def fileUsers (s : Skeleton) (f : ℕ) : ℕ := s.channelsOpen.countP fun c => s.file c == f

/-- The reference counts while callers hold `hd` references to nodes and `hf` to files besides those of
the open instances. `pins` are open instances that a caller relies on, with their nodes. -/
structure Counted (hd hf : ℕ → ℕ) (pins : List (ℕ × ℕ)) (s : Skeleton) : Prop where
  slab : s.nodes.Nodup
  rootParent : s.parent rootDentry = none
  parent : ∀ d ∈ s.dentriesSlab, ∃ p ∈ s.nodes, s.parent d = some p ∧ d ∈ s.children p
  children : ∀ p ∈ s.nodes, (s.children p).Nodup ∧
    ∀ d ∈ s.children p, d ∈ s.dentriesSlab ∧ s.parent d = some p
  held : ∀ d, 0 < hd d → d ∈ s.nodes
  dentryRefs : ∀ d ∈ s.nodes, s.dentryRefs d =
    s.users d + (s.children d).length + hd d + if d = rootDentry then 1 else 0
  dentryPos : ∀ d ∈ s.nodes, 0 < s.dentryRefs d
  num : s.numDentries = (s.nodes.map s.dentryRefs).sum
  channels : s.channelsOpen.Nodup
  closed : ∀ c, c ∉ s.channelsOpen → s.magic c = false
  channelFile : ∀ c ∈ s.channelsOpen, s.file c ∈ s.filesOpen
  channelDentry : ∀ c ∈ s.channelsOpen, ∀ d, s.dentry c = some d → d ∈ s.nodes
  channelNode : ∀ c ∈ s.channelsOpen, ∃ d, s.dentry c = some d
  files : s.filesOpen.Nodup
  heldFile : ∀ f, 0 < hf f → f ∈ s.filesOpen
  fileRefs : ∀ f ∈ s.filesOpen, s.fileRefs f = s.fileUsers f + hf f
  filePos : ∀ f ∈ s.filesOpen, 0 < s.fileRefs f
  freshNode : ∀ d ∈ s.nodes, d < s.nextId
  freshFile : ∀ f ∈ s.filesOpen, f < s.nextId
  freshChannel : ∀ c ∈ s.channelsOpen, c < s.nextId
  pinned : ∀ p ∈ pins, p.1 ∈ s.channelsOpen ∧ s.dentry p.1 = some p.2

def addRef (d : ℕ) (s : Skeleton) : Skeleton :=
  { s with dentryRefs := hold d s.dentryRefs, numDentries := s.numDentries + 1 }

def dropRef (d : ℕ) (s : Skeleton) : Skeleton :=
  { s with
    dentryRefs := fun k => if k = d then s.dentryRefs k - 1 else s.dentryRefs k
    numDentries := s.numDentries - 1 }

/-- Takes a node off the children of its parent, and frees it. -/
def dropNode (d p : ℕ) (s : Skeleton) : Skeleton :=
  { s with
    dentriesSlab := s.dentriesSlab.erase d
    children := fun k => if k = p then (s.children k).erase d else s.children k }

def newNode (d p : ℕ) (a : UInt8) (s : Skeleton) : Skeleton :=
  { s with
    dentriesSlab := d :: s.dentriesSlab
    parent := fun k => if k = d then some p else s.parent k
    children := fun k => if k = p then d :: s.children k else if k = d then [] else s.children k
    dentryRefs := fun k => if k = d then 0 else s.dentryRefs k
    attr := fun k => if k = d then a else s.attr k }

def newFile (f : ℕ) (s : Skeleton) : Skeleton :=
  { s with filesOpen := f :: s.filesOpen, fileRefs := fun k => if k = f then 0 else s.fileRefs k }

def addFileRef (f : ℕ) (s : Skeleton) : Skeleton := { s with fileRefs := hold f s.fileRefs }

def dropFileRef (f : ℕ) (s : Skeleton) : Skeleton :=
  { s with
    fileRefs := fun k => if k = f then s.fileRefs k - 1 else s.fileRefs k
    filesOpen := if s.fileRefs f - 1 = 0 then s.filesOpen.erase f else s.filesOpen }

def newChannel (c f : ℕ) (d : Option ℕ) (flags : ℕ) (s : Skeleton) : Skeleton :=
  { s with
    channelsOpen := c :: s.channelsOpen
    file := fun k => if k = c then f else s.file k
    magic := fun k => if k = c then true else s.magic k
    flags := fun k => if k = c then flags else s.flags k
    channelRefs := fun k => if k = c then 1 else s.channelRefs k
    dentry := fun k => if k = c then d else s.dentry k }

def endChannel (c : ℕ) (s : Skeleton) : Skeleton :=
  { s with
    channelsOpen := s.channelsOpen.erase c
    magic := fun k => if k = c then false else s.magic k }

def setNextId (n : ℕ) (s : Skeleton) : Skeleton := { s with nextId := n }

def setChannelRefs (r : ℕ → ℕ) (s : Skeleton) : Skeleton := { s with channelRefs := r }

namespace Counted

variable {hd hf : ℕ → ℕ} {pins : List (ℕ × ℕ)} {s : Skeleton} {d p f c : ℕ}

theorem unpin (h : Counted hd hf pins s) {pins' : List (ℕ × ℕ)} (hp : ∀ p ∈ pins', p ∈ pins) :
    Counted hd hf pins' s :=
  { h with pinned := fun p hm => h.pinned p (hp p hm) }

theorem nextId (h : Counted hd hf pins s) {n : ℕ} (hn : s.nextId ≤ n) : Counted hd hf pins (s.setNextId n) :=
  { h with
    freshNode := fun d hm => Nat.lt_of_lt_of_le (h.freshNode d hm) hn
    freshFile := fun f hm => Nat.lt_of_lt_of_le (h.freshFile f hm) hn
    freshChannel := fun c hm => Nat.lt_of_lt_of_le (h.freshChannel c hm) hn }

theorem channelRefs (h : Counted hd hf pins s) (r : ℕ → ℕ) : Counted hd hf pins (s.setChannelRefs r) :=
  { h with }

theorem addRef (h : Counted hd hf pins s) (hm : d ∈ s.nodes) : Counted (hold d hd) hf pins (s.addRef d) :=
  { h with
    held := by
      intro k hk
      by_cases he : k = d
      · exact he ▸ hm
      · exact h.held k (by simpa [hold, he] using hk)
    dentryRefs := by
      intro k hk
      have := h.dentryRefs k hk
      change hold d s.dentryRefs k = s.users k + (s.children k).length + hold d hd k + _
      unfold hold
      split <;> omega
    dentryPos := fun k hk => Nat.lt_of_lt_of_le (h.dentryPos k hk) (le_hold _ _ _)
    num := by
      change s.numDentries + 1 = (s.nodes.map (hold d s.dentryRefs)).sum
      rw [sum_map_hold h.slab hm, h.num] }

theorem addFileRef (h : Counted hd hf pins s) (hm : f ∈ s.filesOpen) :
    Counted hd (hold f hf) pins (s.addFileRef f) :=
  { h with
    heldFile := by
      intro k hk
      by_cases he : k = f
      · exact he ▸ hm
      · exact h.heldFile k (by simpa [hold, he] using hk)
    fileRefs := by
      intro k hk
      have := h.fileRefs k hk
      change hold f s.fileRefs k = s.fileUsers k + hold f hf k
      unfold hold
      split <;> omega
    filePos := fun k hk => Nat.lt_of_lt_of_le (h.filePos k hk) (le_hold _ _ _) }

theorem mem_held (h : Counted (hold d hd) hf pins s) : d ∈ s.nodes := h.held d (hold_pos d hd)

theorem mem_slab (hm : d ∈ s.nodes) (hr : d ≠ rootDentry) : d ∈ s.dentriesSlab :=
  (List.mem_cons.mp hm).resolve_left hr

theorem dropRef_hold (h : Counted (hold d hd) hf pins s) :
    hold d (s.dropRef d).dentryRefs = s.dentryRefs := by
  have hpos := h.dentryPos d h.mem_held
  funext k
  simp only [hold, Skeleton.dropRef]
  split
  · subst_vars
    omega
  · rfl

theorem dropRef (h : Counted (hold d hd) hf pins s) (hr : s.dentryRefs d ≠ 1) :
    Counted hd hf pins (s.dropRef d) := by
  have hm := h.mem_held
  have hpos := h.dentryPos d hm
  exact { h with
    held := fun k hk => h.held k (Nat.lt_of_lt_of_le hk (le_hold _ _ _))
    dentryRefs := by
      intro k hk
      have hk' := h.dentryRefs k hk
      change (if k = d then s.dentryRefs k - 1 else s.dentryRefs k) = s.users k + (s.children k).length + hd k + _
      unfold hold at hk'
      by_cases hkd : k = d
      · rw [if_pos hkd] at hk' ⊢
        omega
      · rw [if_neg hkd] at hk' ⊢
        exact hk'
    dentryPos := by
      intro k hk
      have hk' := h.dentryPos k hk
      change 0 < if k = d then s.dentryRefs k - 1 else s.dentryRefs k
      split
      · subst_vars
        omega
      · exact hk'
    num := by
      have hsum := sum_map_hold h.slab hm (s.dropRef d).dentryRefs
      rw [h.dropRef_hold, ← h.num] at hsum
      change s.numDentries - 1 = (s.nodes.map (s.dropRef d).dentryRefs).sum
      omega }

/-- The last reference to a node is the caller's: nothing else refers to it. -/
theorem last_ref (h : Counted (hold d hd) hf pins s) (hr : s.dentryRefs d = 1) :
    d ≠ rootDentry ∧ s.users d = 0 ∧ s.children d = [] ∧ hd d = 0 := by
  have hk := h.dentryRefs d h.mem_held
  rw [hold_self, hr] at hk
  refine ⟨fun he => ?_, by omega, List.length_eq_zero_iff.mp (by omega), by omega⟩
  rw [if_pos he] at hk
  omega

/-- The last reference is dropped: the node goes, and with it the reference to its parent. -/
theorem dropNode (h : Counted (hold d hd) hf pins s) (hr : s.dentryRefs d = 1) :
    ∃ p, s.parent d = some p ∧ Counted (hold p hd) hf pins ((s.dropRef d).dropNode d p) := by
  obtain ⟨hroot, husers, hchild, hhd⟩ := h.last_ref hr
  have hslab := mem_slab h.mem_held hroot
  obtain ⟨p, hp, hparent, hmem⟩ := h.parent d hslab
  have hpd : p ≠ d := fun he => by
    subst he
    simp [hchild] at hmem
  have hnd : s.dentriesSlab.Nodup := (List.nodup_cons.mp h.slab).2
  have hnodes : ∀ k, k ∈ ((s.dropRef d).dropNode d p).nodes → k ∈ s.nodes ∧ k ≠ d := by
    intro k hk
    rcases List.mem_cons.mp hk with rfl | hk
    · exact ⟨List.mem_cons_self, hroot.symm⟩
    · exact ⟨List.mem_cons_of_mem _ (List.mem_of_mem_erase hk), fun he => hnd.not_mem_erase (he ▸ hk)⟩
  have hnodes' : ∀ k ∈ s.nodes, k ≠ d → k ∈ ((s.dropRef d).dropNode d p).nodes := by
    intro k hk hne
    rcases List.mem_cons.mp hk with rfl | hk
    · exact List.mem_cons_self
    · exact List.mem_cons_of_mem _ ((List.mem_erase_of_ne hne).mpr hk)
  have hchildren : ∀ k ∈ s.nodes, ((s.dropRef d).dropNode d p).children k = (s.children k).erase d := by
    intro k hk
    change (if k = p then (s.children k).erase d else s.children k) = _
    split
    · rfl
    · next hkp =>
      refine (List.erase_of_not_mem fun hdk => hkp ?_).symm
      have := ((h.children k hk).2 d hdk).2
      simp_all
  refine ⟨p, hparent, { h with
    slab := ?_, parent := ?_, children := ?_, held := ?_, dentryRefs := ?_, dentryPos := ?_, num := ?_,
    channelDentry := ?_, freshNode := fun k hk => h.freshNode k (hnodes k hk).1 }⟩
  · exact List.nodup_cons.mpr ⟨fun hk => (List.nodup_cons.mp h.slab).1 (List.mem_of_mem_erase hk), hnd.erase d⟩
  · intro k hk
    obtain ⟨q, hq, hkq, hmq⟩ := h.parent k (List.mem_of_mem_erase hk)
    have hkd : k ≠ d := fun he => hnd.not_mem_erase (he ▸ hk)
    have hqd : q ≠ d := fun he => by simp [he, hchild] at hmq
    refine ⟨q, hnodes' q hq hqd, hkq, ?_⟩
    rw [hchildren q hq]
    exact (List.mem_erase_of_ne hkd).mpr hmq
  · intro k hk
    obtain ⟨hks, hkd⟩ := hnodes k hk
    obtain ⟨hn, hc⟩ := h.children k hks
    rw [hchildren k hks]
    refine ⟨hn.erase d, fun e he => ?_⟩
    have hed : e ≠ d := fun h => hn.not_mem_erase (h ▸ he)
    obtain ⟨hes, hep⟩ := hc e (List.mem_of_mem_erase he)
    exact ⟨(List.mem_erase_of_ne hed).mpr hes, hep⟩
  · intro k hk
    by_cases hkp : k = p
    · exact hnodes' k (hkp ▸ hp) (hkp ▸ hpd)
    · have hk' : 0 < hd k := by simpa [hold, hkp] using hk
      exact hnodes' k (h.held k (Nat.lt_of_lt_of_le hk' (le_hold _ _ _))) (fun he => by
        rw [he] at hk'
        omega)
  · intro k hk
    obtain ⟨hks, hkd⟩ := hnodes k hk
    have hrefs := h.dentryRefs k hks
    simp only [hold, hkd, if_false] at hrefs
    rw [hchildren k hks]
    change (if k = d then s.dentryRefs k - 1 else s.dentryRefs k) = s.users k + _ + hold p hd k + _
    rw [if_neg hkd, hrefs]
    by_cases hkp : k = p
    · subst hkp
      have := List.length_erase_of_mem hmem
      have := List.length_pos_of_mem hmem
      rw [hold_self]
      omega
    · have hnm : d ∉ s.children k := fun hdk => hkp (by
        have := ((h.children k hks).2 d hdk).2
        simp_all)
      rw [List.erase_of_not_mem hnm, hold, if_neg hkp]
  · intro k hk
    obtain ⟨hks, hkd⟩ := hnodes k hk
    change 0 < if k = d then s.dentryRefs k - 1 else s.dentryRefs k
    rw [if_neg hkd]
    exact h.dentryPos k hks
  · have hsum := List.sum_map_erase s.dentryRefs h.mem_held
    have herase : s.nodes.erase d = ((s.dropRef d).dropNode d p).nodes := List.erase_cons_tail (by simpa using hroot.symm)
    have hcongr : ∀ k ∈ ((s.dropRef d).dropNode d p).nodes,
        ((s.dropRef d).dropNode d p).dentryRefs k = s.dentryRefs k := fun k hk => if_neg (hnodes k hk).2
    rw [herase, ← h.num, hr] at hsum
    rw [List.map_congr_left hcongr]
    change s.numDentries - 1 = _
    omega
  · intro c hc k hk
    refine hnodes' k (h.channelDentry c hc k hk) fun he => ?_
    subst he
    have hne : s.dentry c ≠ some k := by simpa using List.countP_eq_zero.mp husers c hc
    exact hne hk

theorem newNode (h : Counted hd hf pins s) (hp : p ∈ s.nodes) (hd' : d ∉ s.nodes) (hid : d < s.nextId) (a : UInt8) :
    Counted (hold d hd) hf pins (((s.newNode d p a).addRef p).addRef d) := by
  have hpd : p ≠ d := fun he => hd' (he ▸ hp)
  have hdr : d ≠ rootDentry := fun he => hd' (he ▸ List.mem_cons_self)
  have hne : ∀ k ∈ s.nodes, k ≠ d := fun k hk he => hd' (he ▸ hk)
  have hnodes : ∀ k, k ∈ (((s.newNode d p a).addRef p).addRef d).nodes ↔ k = d ∨ k ∈ s.nodes := by
    intro k
    change k ∈ rootDentry :: d :: s.dentriesSlab ↔ k = d ∨ k ∈ rootDentry :: s.dentriesSlab
    simp only [List.mem_cons]
    tauto
  have hzero : hd d = 0 := by
    by_contra hne0
    exact hd' (h.held d (by omega))
  have husers : s.users d = 0 := List.countP_eq_zero.mpr fun c hc hcd =>
    hd' (h.channelDentry c hc d (by simpa using hcd))
  have hrefs : ∀ k, (((s.newNode d p a).addRef p).addRef d).dentryRefs k =
      if k = d then 1 else hold p s.dentryRefs k := by
    intro k
    change hold d (hold p fun k => if k = d then 0 else s.dentryRefs k) k = _
    unfold hold
    by_cases hk : k = d
    · simp [hk, hpd.symm]
    · simp [hk]
  have hchildren : ∀ k, (((s.newNode d p a).addRef p).addRef d).children k =
      if k = p then d :: s.children k else if k = d then [] else s.children k := fun _ => rfl
  refine { h with
    slab := ?_, rootParent := ?_, parent := ?_, children := ?_, held := ?_, dentryRefs := ?_, dentryPos := ?_,
    num := ?_, channelDentry := fun c hc k hk => (hnodes k).mpr (.inr (h.channelDentry c hc k hk)),
    freshNode := ?_ }
  · have hslab := List.nodup_cons.mp h.slab
    refine List.nodup_cons.mpr ⟨?_, List.nodup_cons.mpr ⟨fun hm => hd' (List.mem_cons_of_mem _ hm), hslab.2⟩⟩
    intro hm
    rcases List.mem_cons.mp hm with he | hm
    · exact hdr he.symm
    · exact hslab.1 hm
  · exact (if_neg hdr.symm).trans h.rootParent
  · intro k hk
    rcases List.mem_cons.mp hk with rfl | hk
    · exact ⟨p, (hnodes p).mpr (.inr hp), if_pos rfl, by rw [hchildren, if_pos rfl]; exact List.mem_cons_self⟩
    · obtain ⟨q, hq, hkq, hmq⟩ := h.parent k hk
      refine ⟨q, (hnodes q).mpr (.inr hq), ?_, ?_⟩
      · exact (if_neg (hne k (List.mem_cons_of_mem _ hk))).trans hkq
      · rw [hchildren, if_neg (hne q hq)]
        split
        · exact List.mem_cons_of_mem _ hmq
        · exact hmq
  · intro k hk
    rw [hchildren]
    have hold' : k ∈ s.nodes → ∀ e ∈ s.children k, e ∈ d :: s.dentriesSlab ∧
        (if e = d then some p else s.parent e) = some k := fun hks e he =>
      have hes := (h.children k hks).2 e he
      ⟨List.mem_cons_of_mem _ hes.1, by rw [if_neg (hne e (List.mem_cons_of_mem _ hes.1)), hes.2]⟩
    rcases (hnodes k).mp hk with rfl | hks
    · rw [if_neg hpd.symm, if_pos rfl]
      exact ⟨List.nodup_nil, by simp⟩
    · rw [if_neg (hne k hks)]
      by_cases hkp : k = p
      · rw [if_pos hkp]
        refine ⟨List.nodup_cons.mpr ⟨fun hm => ?_, (h.children k hks).1⟩, fun e he => ?_⟩
        · exact hd' (List.mem_cons_of_mem _ ((h.children k hks).2 d hm).1)
        · rcases List.mem_cons.mp he with rfl | he
          · exact ⟨List.mem_cons_self, (if_pos rfl).trans (by rw [hkp])⟩
          · exact hold' hks e he
      · rw [if_neg hkp]
        exact ⟨(h.children k hks).1, hold' hks⟩
  · intro k hk
    by_cases hkd : k = d
    · exact (hnodes k).mpr (.inl hkd)
    · exact (hnodes k).mpr (.inr (h.held k (by simpa [hold, hkd] using hk)))
  · intro k hk
    rw [hrefs, hchildren]
    change _ = s.users k + _ + _ + _
    rcases (hnodes k).mp hk with rfl | hks
    · rw [if_pos rfl, if_neg hpd.symm, if_pos rfl, husers, hold_self, hzero, if_neg hdr]
      rfl
    · have hk' := h.dentryRefs k hks
      rw [if_neg (hne k hks), if_neg (hne k hks), hold, hold, if_neg (hne k hks)]
      split
      · rw [List.length_cons]
        omega
      · exact hk'
  · intro k hk
    rw [hrefs]
    rcases (hnodes k).mp hk with rfl | hks
    · rw [if_pos rfl]
      exact Nat.one_pos
    · rw [if_neg (hne k hks)]
      exact Nat.lt_of_lt_of_le (h.dentryPos k hks) (le_hold _ _ _)
  · have hsum := sum_map_hold h.slab hp s.dentryRefs
    have hperm : ((((s.newNode d p a).addRef p).addRef d).nodes).Perm (d :: s.nodes) := List.Perm.swap _ _ _
    have hcongr : ∀ k ∈ s.nodes, (((s.newNode d p a).addRef p).addRef d).dentryRefs k =
        hold p s.dentryRefs k := fun k hk => (hrefs k).trans (if_neg (hne k hk))
    rw [(hperm.map _).sum_eq, List.map_cons, List.sum_cons, List.map_congr_left hcongr, hrefs, if_pos rfl, hsum,
      ← h.num]
    change s.numDentries + 1 + 1 = _
    omega
  · intro k hk
    rcases (hnodes k).mp hk with rfl | hks
    · exact hid
    · exact h.freshNode k hks

theorem newFile (h : Counted hd hf pins s) (hf' : f ∉ s.filesOpen) (hid : f < s.nextId) :
    Counted hd (hold f hf) pins ((s.newFile f).addFileRef f) := by
  have hzero : hf f = 0 := by
    by_contra hne0
    exact hf' (h.heldFile f (by omega))
  have husers : s.fileUsers f = 0 := List.countP_eq_zero.mpr fun c hc hcf =>
    hf' ((by simpa using hcf : s.file c = f) ▸ h.channelFile c hc)
  have hrefs : ∀ k, ((s.newFile f).addFileRef f).fileRefs k = if k = f then 1 else s.fileRefs k := by
    intro k
    change hold f (fun k => if k = f then 0 else s.fileRefs k) k = _
    unfold hold
    by_cases hk : k = f <;> simp [hk]
  refine { h with
    channelFile := fun c hc => List.mem_cons_of_mem _ (h.channelFile c hc)
    files := List.nodup_cons.mpr ⟨hf', h.files⟩
    heldFile := ?_, fileRefs := ?_, filePos := ?_, freshFile := ?_ }
  · intro k hk
    by_cases hkf : k = f
    · exact hkf ▸ List.mem_cons_self
    · exact List.mem_cons_of_mem _ (h.heldFile k (by simpa [hold, hkf] using hk))
  · intro k hk
    rw [hrefs]
    change _ = s.fileUsers k + _
    rcases List.mem_cons.mp hk with rfl | hk
    · rw [if_pos rfl, husers, hold_self, hzero]
    · have hkf : k ≠ f := fun he => hf' (he ▸ hk)
      rw [if_neg hkf, hold, if_neg hkf, h.fileRefs k hk]
  · intro k hk
    rw [hrefs]
    rcases List.mem_cons.mp hk with rfl | hk
    · rw [if_pos rfl]
      exact Nat.one_pos
    · have hkf : k ≠ f := fun he => hf' (he ▸ hk)
      rw [if_neg hkf]
      exact h.filePos k hk
  · intro k hk
    rcases List.mem_cons.mp hk with rfl | hk
    · exact hid
    · exact h.freshFile k hk

theorem dropFileRef (h : Counted hd (hold f hf) pins s) : Counted hd hf pins (s.dropFileRef f) := by
  have hm : f ∈ s.filesOpen := h.heldFile f (hold_pos f hf)
  have hrefs := h.fileRefs f hm
  rw [hold_self] at hrefs
  have hother : ∀ k ∈ s.filesOpen, k ≠ f → s.fileRefs k = s.fileUsers k + hf k := fun k hk hne => by
    have hk' := h.fileRefs k hk
    rwa [hold, if_neg hne] at hk'
  by_cases hlast : s.fileRefs f - 1 = 0
  · have herase : (s.dropFileRef f).filesOpen = s.filesOpen.erase f := if_pos hlast
    have hne : ∀ k ∈ s.filesOpen.erase f, k ≠ f := fun k hk he => h.files.not_mem_erase (he ▸ hk)
    have husers : s.fileUsers f = 0 := by omega
    refine { h with
      channelFile := ?_, files := herase ▸ h.files.erase f, heldFile := ?_, fileRefs := ?_, filePos := ?_,
      freshFile := ?_ }
    · intro c hc
      rw [herase]
      have hcf : s.file c ≠ f := by simpa using List.countP_eq_zero.mp husers c hc
      exact (List.mem_erase_of_ne hcf).mpr (h.channelFile c hc)
    · intro k hk
      rw [herase]
      have hkf : k ≠ f := fun he => by
        rw [he] at hk
        omega
      exact (List.mem_erase_of_ne hkf).mpr (h.heldFile k (Nat.lt_of_lt_of_le hk (le_hold _ _ _)))
    · intro k hk
      rw [herase] at hk
      exact (if_neg (hne k hk)).trans (hother k (List.mem_of_mem_erase hk) (hne k hk))
    · intro k hk
      rw [herase] at hk
      exact Nat.lt_of_lt_of_eq (h.filePos k (List.mem_of_mem_erase hk)) (if_neg (hne k hk)).symm
    · intro k hk
      rw [herase] at hk
      exact h.freshFile k (List.mem_of_mem_erase hk)
  · have hopen : (s.dropFileRef f).filesOpen = s.filesOpen := if_neg hlast
    refine { h with
      channelFile := fun c hc => hopen ▸ h.channelFile c hc
      files := hopen ▸ h.files
      heldFile := fun k hk => hopen ▸ h.heldFile k (Nat.lt_of_lt_of_le hk (le_hold _ _ _))
      fileRefs := ?_, filePos := ?_
      freshFile := fun k hk => h.freshFile k (hopen ▸ hk) }
    · intro k hk
      change (if k = f then s.fileRefs k - 1 else s.fileRefs k) = s.fileUsers k + hf k
      split
      · subst_vars
        omega
      · exact hother k (hopen ▸ hk) ‹_›
    · intro k hk
      change 0 < if k = f then s.fileRefs k - 1 else s.fileRefs k
      split
      · subst_vars
        omega
      · exact h.filePos k (hopen ▸ hk)

theorem countP_cons_update {l : List ℕ} {c : ℕ} (hc : c ∉ l) {β : Type} [BEq β] (g : ℕ → β) (b x : β) :
    (c :: l).countP (fun k => (if k = c then b else g k) == x) =
      l.countP (fun k => g k == x) + if b == x then 1 else 0 := by
  rw [List.countP_cons, if_pos rfl]
  congr 1
  refine List.countP_congr fun k hk => ?_
  have hkc : k ≠ c := fun he => hc (he ▸ hk)
  rw [if_neg hkc]

theorem newChannel (h : Counted (hold d hd) (hold f hf) pins s) (hc : c ∉ s.channelsOpen) (hid : c < s.nextId)
    (flags : ℕ) : Counted hd hf ((c, d) :: pins) (s.newChannel c f (some d) flags) := by
  have hne : ∀ k ∈ s.channelsOpen, k ≠ c := fun k hk he => hc (he ▸ hk)
  have husers : ∀ k, (s.newChannel c f (some d) flags).users k = s.users k + if d = k then 1 else 0 := fun k => by
    refine (countP_cons_update hc s.dentry (some d) (some k)).trans ?_
    simp only [users, beq_iff_eq, Option.some.injEq]
  have hfusers : ∀ k, (s.newChannel c f (some d) flags).fileUsers k = s.fileUsers k + if f = k then 1 else 0 :=
    fun k => by
      refine (countP_cons_update hc s.file f k).trans ?_
      simp only [fileUsers, beq_iff_eq]
  refine { h with
    held := fun k hk => h.held k (Nat.lt_of_lt_of_le hk (le_hold _ _ _))
    dentryRefs := ?_
    channels := List.nodup_cons.mpr ⟨hc, h.channels⟩
    closed := ?_, channelFile := ?_, channelDentry := ?_, channelNode := ?_
    heldFile := fun k hk => h.heldFile k (Nat.lt_of_lt_of_le hk (le_hold _ _ _))
    fileRefs := ?_, freshChannel := ?_, pinned := ?_ }
  · intro k hk
    have hk' := h.dentryRefs k hk
    change s.dentryRefs k = _ + (s.children k).length + _ + _
    rw [husers]
    unfold hold at hk'
    by_cases hkd : k = d
    · rw [if_pos hkd] at hk'
      rw [if_pos hkd.symm]
      omega
    · rw [if_neg hkd] at hk'
      rw [if_neg fun he => hkd he.symm]
      omega
  · intro k hk
    have hkc : k ≠ c := fun he => hk (he ▸ List.mem_cons_self)
    exact (if_neg hkc).trans (h.closed k fun hm => hk (List.mem_cons_of_mem _ hm))
  · intro k hk
    rcases List.mem_cons.mp hk with rfl | hk
    · change (if k = k then f else s.file k) ∈ s.filesOpen
      rw [if_pos rfl]
      exact h.heldFile f (hold_pos f hf)
    · change (if k = c then f else s.file k) ∈ s.filesOpen
      rw [if_neg (hne k hk)]
      exact h.channelFile k hk
  · intro k hk e he
    rcases List.mem_cons.mp hk with rfl | hk
    · have hde : d = e := by simpa [Skeleton.newChannel] using he
      exact hde ▸ h.mem_held
    · exact h.channelDentry k hk e ((if_neg (hne k hk)).symm.trans he)
  · intro k hk
    rcases List.mem_cons.mp hk with rfl | hk
    · exact ⟨d, if_pos rfl⟩
    · obtain ⟨e, he⟩ := h.channelNode k hk
      exact ⟨e, (if_neg (hne k hk)).trans he⟩
  · intro k hk
    have hk' := h.fileRefs k hk
    rw [hfusers]
    unfold hold at hk'
    by_cases hkf : k = f
    · rw [if_pos hkf] at hk'
      rw [if_pos hkf.symm]
      exact hk'.trans (by omega)
    · rw [if_neg hkf] at hk'
      rw [if_neg fun he => hkf he.symm]
      exact hk'
  · intro k hk
    rcases List.mem_cons.mp hk with rfl | hk
    · exact hid
    · exact h.freshChannel k hk
  · intro q hq
    rcases List.mem_cons.mp hq with rfl | hq
    · exact ⟨List.mem_cons_self, if_pos rfl⟩
    · obtain ⟨hqo, hqd⟩ := h.pinned q hq
      exact ⟨List.mem_cons_of_mem _ hqo, (if_neg (hne _ hqo)).trans hqd⟩

theorem endChannel (h : Counted hd hf pins s) (hc : c ∈ s.channelsOpen) (hd' : s.dentry c = some d)
    (hp : ∀ q ∈ pins, q.1 ≠ c) :
    Counted (hold d hd) (hold (s.file c) hf) pins (s.endChannel c) := by
  have husers : ∀ k, (s.endChannel c).users k + (if d = k then 1 else 0) = s.users k := fun k => by
    have hperm := (List.perm_cons_erase hc).countP_eq (fun q => s.dentry q == some k)
    rw [List.countP_cons] at hperm
    simp only [hd', beq_iff_eq, Option.some.injEq] at hperm
    exact hperm.symm
  have hfusers : ∀ k, (s.endChannel c).fileUsers k + (if s.file c = k then 1 else 0) = s.fileUsers k := fun k => by
    have hperm := (List.perm_cons_erase hc).countP_eq (fun q => s.file q == k)
    rw [List.countP_cons] at hperm
    simp only [beq_iff_eq] at hperm
    exact hperm.symm
  refine { h with
    held := ?_, dentryRefs := ?_, channels := h.channels.erase c, closed := ?_
    channelFile := fun k hk => h.channelFile k (List.mem_of_mem_erase hk)
    channelDentry := fun k hk => h.channelDentry k (List.mem_of_mem_erase hk)
    channelNode := fun k hk => h.channelNode k (List.mem_of_mem_erase hk)
    heldFile := ?_, fileRefs := ?_
    freshChannel := fun k hk => h.freshChannel k (List.mem_of_mem_erase hk)
    pinned := fun q hq => ⟨(List.mem_erase_of_ne (hp q hq)).mpr (h.pinned q hq).1, (h.pinned q hq).2⟩ }
  · intro k hk
    by_cases hkd : k = d
    · exact hkd ▸ h.channelDentry c hc d hd'
    · exact h.held k (by simpa [hold, hkd] using hk)
  · intro k hk
    have hk' := h.dentryRefs k hk
    have hu := husers k
    change s.dentryRefs k = _ + (s.children k).length + _ + _
    unfold hold
    by_cases hkd : k = d
    · rw [if_pos hkd.symm] at hu
      rw [if_pos hkd]
      omega
    · rw [if_neg fun he => hkd he.symm] at hu
      rw [if_neg hkd]
      omega
  · intro k hk
    by_cases hkc : k = c
    · exact if_pos hkc
    · exact (if_neg hkc).trans (h.closed k fun hm => hk ((List.mem_erase_of_ne hkc).mpr hm))
  · intro k hk
    by_cases hkf : k = s.file c
    · exact hkf ▸ h.channelFile c hc
    · exact h.heldFile k (by simpa [hold, hkf] using hk)
  · intro k hk
    have hk' := h.fileRefs k hk
    have hu := hfusers k
    change s.fileRefs k = _ + _
    unfold hold
    by_cases hkf : k = s.file c
    · rw [if_pos hkf.symm] at hu
      rw [if_pos hkf]
      omega
    · rw [if_neg fun he => hkf he.symm] at hu
      rw [if_neg hkf]
      omega

end Counted

end Skeleton

end FreeDos32.Fat
