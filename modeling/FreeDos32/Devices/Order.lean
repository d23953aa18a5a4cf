import FreeDos32.Devices.Registry
import Mathlib.Data.List.Find
import Mathlib.Data.List.Perm.Subperm

namespace FreeDos32.Devices

open Filesys (strcaseEq)

variable {r r' : Registry} {k j handle request deviceId : ℕ} {name : List Char} {o a b : List ℕ}

namespace Registry

section Place

theorem place_devFirst (k request deviceId : ℕ) (name : List Char) (r : Registry) :
    (r.place k request deviceId name).devFirst = if r.devLast = none then some k else r.devFirst := by
  unfold place set
  cases r.devLast <;> rfl

theorem place_devLast (k request deviceId : ℕ) (name : List Char) (r : Registry) :
    (r.place k request deviceId name).devLast = some k := rfl

theorem place_devSize (k request deviceId : ℕ) (name : List Char) (r : Registry) :
    (r.place k request deviceId name).devSize = r.devSize := by
  unfold place set
  cases r.devLast <;> rfl

theorem place_devices (hk : r.devLast ≠ some k) (request deviceId : ℕ) (name : List Char) (j : ℕ) :
    (r.place k request deviceId name).devices j =
      if j = k then ⟨some request, deviceId, name, r.devLast, none⟩
      else if r.devLast = some j then { r.devices j with next := some k } else r.devices j := by
  unfold place set
  cases hl : r.devLast with
  | none =>
    dsimp only
    by_cases hj : j = k
    · rw [hj, Function.update_self, if_pos rfl]
    · rw [Function.update_of_ne hj, if_neg hj, if_neg (by simp)]
  | some i =>
    have hik : i ≠ k := fun h => hk (hl.trans (congrArg some h))
    dsimp only
    by_cases hj : j = k
    · rw [hj, Function.update_of_ne (Ne.symm hik), Function.update_self, if_pos rfl]
    · rw [if_neg hj]
      by_cases hji : j = i
      · rw [hji, Function.update_self, Function.update_of_ne hik, if_pos rfl]
      · rw [Function.update_of_ne hji, Function.update_of_ne hj, if_neg fun h => hji (Option.some.inj h).symm]

end Place

section Unlink

theorem unlinkForth_devices (handle : ℕ) (r : Registry) (j : ℕ) :
    (r.unlinkForth handle).devices j =
      if (r.devices handle).prev = some j then { r.devices j with next := (r.devices handle).next } else r.devices j := by
  unfold unlinkForth set
  cases (r.devices handle).prev with
  | none => rfl
  | some i =>
    by_cases hij : i = j
    · rw [hij, if_pos rfl]
      exact Function.update_self ..
    · rw [if_neg fun h => hij (Option.some.inj h)]
      exact Function.update_of_ne (Ne.symm hij) ..

theorem unlinkForth_rest (handle : ℕ) (r : Registry) :
    (r.unlinkForth handle).devFirst = (if (r.devices handle).prev = none then (r.devices handle).next else r.devFirst) ∧
      (r.unlinkForth handle).devLast = r.devLast ∧ (r.unlinkForth handle).devSize = r.devSize := by
  unfold unlinkForth set
  cases (r.devices handle).prev <;> exact ⟨rfl, rfl, rfl⟩

theorem unlinkBack_devices (handle : ℕ) (r : Registry) (j : ℕ) :
    (r.unlinkBack handle).devices j =
      if (r.devices handle).next = some j then { r.devices j with prev := (r.devices handle).prev } else r.devices j := by
  unfold unlinkBack set
  cases (r.devices handle).next with
  | none => rfl
  | some i =>
    by_cases hij : i = j
    · rw [hij, if_pos rfl]
      exact Function.update_self ..
    · rw [if_neg fun h => hij (Option.some.inj h)]
      exact Function.update_of_ne (Ne.symm hij) ..

theorem unlinkBack_rest (handle : ℕ) (r : Registry) :
    (r.unlinkBack handle).devFirst = r.devFirst ∧
      (r.unlinkBack handle).devLast = (if (r.devices handle).next = none then (r.devices handle).prev else r.devLast) ∧
      (r.unlinkBack handle).devSize = r.devSize := by
  unfold unlinkBack set
  cases (r.devices handle).next <;> exact ⟨rfl, rfl, rfl⟩

def unlinked (handle : ℕ) (r : Registry) (j : ℕ) : Device where
  request := if j = handle then none else (r.devices j).request
  deviceId := (r.devices j).deviceId
  name := (r.devices j).name
  prev := if (r.devices handle).next = some j then (r.devices handle).prev else (r.devices j).prev
  next := if (r.devices handle).prev = some j then (r.devices handle).next else (r.devices j).next

theorem unregister_ok (hv : r.isInvalid handle = false) (hprev : (r.devices handle).prev ≠ some handle) :
    (r.unregister handle).1 = .ok 0 ∧ (r.unregister handle).2.devSize = r.devSize ∧
      (r.unregister handle).2.devFirst = (if (r.devices handle).prev = none then (r.devices handle).next else r.devFirst) ∧
      (r.unregister handle).2.devLast = (if (r.devices handle).next = none then (r.devices handle).prev else r.devLast) ∧
      (r.unregister handle).2.devices = r.unlinked handle := by
  have hrun : r.unregister handle =
      (.ok 0, ((r.set handle { r.devices handle with request := none }).unlinkForth handle).unlinkBack handle) := by
    rw [unregister, hv]
    rfl
  have hself : (r.set handle { r.devices handle with request := none }).devices handle =
      { r.devices handle with request := none } := Function.update_self ..
  have hforth : ((r.set handle { r.devices handle with request := none }).unlinkForth handle).devices handle =
      { r.devices handle with request := none } := by
    rw [unlinkForth_devices, hself, if_neg hprev]
  rw [hrun]
  obtain ⟨hfirst, hlast, hsize⟩ := unlinkForth_rest handle (r.set handle { r.devices handle with request := none })
  obtain ⟨hfirst', hlast', hsize'⟩ :=
    unlinkBack_rest handle ((r.set handle { r.devices handle with request := none }).unlinkForth handle)
  rw [hself] at hfirst
  rw [hforth, hlast] at hlast'
  refine ⟨rfl, hsize'.trans hsize, hfirst'.trans hfirst, hlast', ?_⟩
  funext j
  rw [unlinkBack_devices, hforth, unlinkForth_devices, hself]
  by_cases hj : j = handle
  · rw [hj, hself, if_neg hprev]
    simp only [unlinked, if_true, if_neg hprev]
    split <;> rfl
  · have hother : (r.set handle { r.devices handle with request := none }).devices j = r.devices j :=
      Function.update_of_ne hj ..
    rw [hother]
    simp only [unlinked, if_neg hj]
    split <;> split <;> rfl

end Unlink

end Registry

structure Entry where
  handle : ℕ
  request : ℕ
  deviceId : ℕ
  name : List Char

/-- The devices that are registered after a call with its result, in the order of their registration. -/
def track : Call → Except Errno ℕ → List Entry → List Entry
  | _, .error _, l => l
  | .register request deviceId name _, .ok handle, l => l ++ [⟨handle, request, deviceId, name⟩]
  | .unregister handle, .ok _, l => l.filter fun e => e.handle ≠ handle
  | .replace handle request deviceId, .ok _, l =>
    l.map fun e => if e.handle = handle then { e with request, deviceId } else e

def handles (l : List Entry) : List ℕ := l.map Entry.handle

def Holds (d : Device) (e : Entry) : Prop := d.request = some e.request ∧ d.deviceId = e.deviceId ∧ d.name = e.name

structure Inv (r : Registry) (l : List Entry) : Prop where
  forth : Path (fun k => (r.devices k).next) r.devFirst (handles l) none
  back : Path (fun k => (r.devices k).prev) r.devLast (handles l).reverse none
  nodup : (handles l).Nodup
  inside : ∀ e ∈ l, e.handle < r.devSize
  holds : ∀ e ∈ l, Holds (r.devices e.handle) e
  unused : ∀ k < r.devSize, k ∉ handles l → (r.devices k).request = none

variable {l : List Entry} {e : Entry}

theorem inv_start : Inv .start [] where
  forth := rfl
  back := rfl
  nodup := List.nodup_nil
  inside _ he := absurd he List.not_mem_nil
  holds _ he := absurd he List.not_mem_nil
  unused _ _ _ := rfl

namespace Inv

theorem mem_iff (h : Inv r l) : k ∈ handles l ↔ r.isInvalid k = false := by
  rw [Registry.isInvalid, Bool.or_eq_false_iff, decide_eq_false_iff_not, Nat.not_le]
  constructor
  · intro hk
    obtain ⟨e, he, rfl⟩ := List.mem_map.mp hk
    refine ⟨h.inside e he, ?_⟩
    rw [(h.holds e he).1]
    rfl
  · rintro ⟨hlt, hsome⟩
    by_contra hk
    rw [h.unused k hlt hk] at hsome
    cases hsome

theorem length_le (h : Inv r l) : l.length ≤ r.devSize := by
  have hsub : handles l ⊆ List.range r.devSize := by
    intro k hk
    obtain ⟨e, he, rfl⟩ := List.mem_map.mp hk
    exact List.mem_range.mpr (h.inside e he)
  have hle := (List.subperm_of_subset h.nodup hsub).length_le
  rwa [handles, List.length_map, List.length_range] at hle

theorem grow (h : Inv r l) : Inv r.grow l := by
  have hsame : ∀ e ∈ l, r.grow.devices e.handle = r.devices e.handle := fun e he => if_pos (h.inside e he)
  have hmem : ∀ k ∈ handles l, r.grow.devices k = r.devices k := by
    intro k hk
    obtain ⟨e, he, rfl⟩ := List.mem_map.mp hk
    exact hsame e he
  constructor
  · exact h.forth.congr fun k hk => by rw [hmem k hk]
  · exact h.back.congr fun k hk => by rw [hmem k (List.mem_reverse.mp hk)]
  · exact h.nodup
  · intro e he
    exact Nat.lt_of_lt_of_le (h.inside e he) (Nat.le_add_right _ _)
  · intro e he
    rw [hsame e he]
    exact h.holds e he
  · intro k _ hk
    simp only [Registry.grow]
    split
    · next hlt => exact h.unused k hlt hk
    · rfl

theorem devLast_eq (h : Inv r l) : r.devLast = (handles l).getLast? := by
  rw [h.back.head_eq, List.head?_reverse]

theorem place (h : Inv r l) (hk : k < r.devSize) (hfree : k ∉ handles l) (request deviceId : ℕ) (name : List Char) :
    Inv (r.place k request deviceId name) (l ++ [⟨k, request, deviceId, name⟩]) := by
  have hlast : r.devLast ≠ some k := by
    rw [h.devLast_eq]
    exact fun he => hfree (List.mem_of_getLast? he)
  have hne : ∀ j ∈ handles l, j ≠ k := fun j hj he => hfree (he ▸ hj)
  have hdev := Registry.place_devices hlast request deviceId name
  have hmap : handles (l ++ [⟨k, request, deviceId, name⟩]) = handles l ++ [k] := by
    simp [handles]
  constructor
  · rw [hmap, Registry.place_devFirst, h.devLast_eq]
    have hforth : Path (fun j => (r.devices j).next) r.devFirst (handles l ++ []) none := by
      rw [List.append_nil]
      exact h.forth
    have hins := hforth.insert (fun j => ((r.place k request deviceId name).devices j).next) (x := k)
      (by simpa using hfree) (fun j hj hjl => ?_) (fun j hj => ?_) (by simpa using h.nodup) ?_
    · simpa using hins
    · have hjm : j ∈ handles l := by simpa using hj
      rw [hdev, if_neg (hne j hjm), h.devLast_eq, if_neg hjl]
    · rw [hdev, if_neg (hne j (List.mem_of_getLast? hj)), h.devLast_eq, if_pos hj]
    · rw [hdev, if_pos rfl]
      rfl
  · rw [hmap, List.reverse_append, List.reverse_singleton, List.singleton_append, Registry.place_devLast]
    refine ⟨rfl, ?_⟩
    dsimp only
    rw [hdev, if_pos rfl]
    refine h.back.congr fun j hj => ?_
    rw [hdev, if_neg (hne j (List.mem_reverse.mp hj))]
    split <;> rfl
  · rw [hmap]
    exact List.nodup_append.mpr ⟨h.nodup, by simp, fun i hi j hj hij => hne i hi (hij.trans (List.mem_singleton.mp hj))⟩
  · intro e he
    rw [Registry.place_devSize]
    rcases List.mem_append.mp he with he | he
    · exact h.inside e he
    · rw [List.mem_singleton.mp he]
      exact hk
  · intro e he
    rcases List.mem_append.mp he with he | he
    · rw [hdev, if_neg (hne _ (List.mem_map_of_mem he))]
      split
      · exact h.holds e he
      · exact h.holds e he
    · rw [List.mem_singleton.mp he, hdev, if_pos rfl]
      exact ⟨rfl, rfl, rfl⟩
  · intro j hj hjm
    rw [hmap, List.mem_append, List.mem_singleton, not_or] at hjm
    rw [Registry.place_devSize] at hj
    rw [hdev, if_neg hjm.2]
    split
    · exact h.unused j hj hjm.1
    · exact h.unused j hj hjm.1

theorem replace (h : Inv r l) (hv : r.isInvalid handle = false) (request deviceId : ℕ) :
    Inv (r.set handle { r.devices handle with request := some request, deviceId })
      (l.map fun e => if e.handle = handle then { e with request, deviceId } else e) := by
  have hhandles : handles (l.map fun e => if e.handle = handle then { e with request, deviceId } else e) = handles l := by
    rw [handles, handles, List.map_map]
    apply List.map_congr_left
    intro e _
    simp only [Function.comp]
    split <;> rfl
  have hdev (j : ℕ) : (r.set handle { r.devices handle with request := some request, deviceId }).devices j =
      if j = handle then { r.devices j with request := some request, deviceId } else r.devices j := by
    by_cases hj : j = handle
    · rw [hj, if_pos rfl]
      exact Function.update_self ..
    · rw [if_neg hj]
      exact Function.update_of_ne hj ..
  constructor
  · rw [hhandles]
    refine h.forth.congr fun j _ => ?_
    rw [hdev]
    split <;> rfl
  · rw [hhandles]
    refine h.back.congr fun j _ => ?_
    rw [hdev]
    split <;> rfl
  · rw [hhandles]
    exact h.nodup
  · intro e he
    obtain ⟨x, hx, rfl⟩ := List.mem_map.mp he
    have hlt := h.inside x hx
    dsimp only
    split <;> exact hlt
  · intro e he
    obtain ⟨x, hx, rfl⟩ := List.mem_map.mp he
    obtain ⟨hreq, hid, hname⟩ := h.holds x hx
    dsimp only
    split
    · next hxh =>
      rw [hdev, if_pos hxh]
      exact ⟨rfl, rfl, hname⟩
    · next hxh =>
      rw [hdev, if_neg hxh]
      exact ⟨hreq, hid, hname⟩
  · intro j hj hjm
    rw [hhandles] at hjm
    have hjh : j ≠ handle := fun he => hjm (he ▸ h.mem_iff.mpr hv)
    rw [hdev, if_neg hjh]
    exact h.unused j hj hjm

theorem handles_filter {a b : List ℕ} (hab : handles l = a ++ handle :: b) (ha : handle ∉ a) (hb : handle ∉ b) :
    handles (l.filter fun e => e.handle ≠ handle) = a ++ b := by
  have hfilter : handles (l.filter fun e => e.handle ≠ handle) = (handles l).filter fun k => k ≠ handle := by
    rw [handles, handles, List.filter_map]
    rfl
  have hkeep : ∀ c : List ℕ, handle ∉ c → c.filter (fun k => k ≠ handle) = c := by
    intro c hc
    apply List.filter_eq_self.mpr
    intro k hk
    simpa using fun he : k = handle => hc (he ▸ hk)
  rw [hfilter, hab, List.filter_append, List.filter_cons_of_neg (by simp), hkeep a ha, hkeep b hb]

theorem unregister (h : Inv r l) (hv : r.isInvalid handle = false) :
    (r.unregister handle).1 = .ok 0 ∧ Inv (r.unregister handle).2 (l.filter fun e => e.handle ≠ handle) := by
  obtain ⟨a, b, hab⟩ := List.append_of_mem (h.mem_iff.mpr hv)
  have hnd : (a ++ handle :: b).Nodup := hab ▸ h.nodup
  obtain ⟨hforth, hback⟩ := And.intro h.forth h.back
  rw [hab] at hforth hback
  rw [List.reverse_append, List.reverse_cons, List.append_assoc, List.singleton_append] at hback
  have hnext : (r.devices handle).next = b.head? := hforth.after
  have hprev : (r.devices handle).prev = a.getLast? := by
    have hafter : (r.devices handle).prev = a.reverse.head? := hback.after
    rw [hafter, List.head?_reverse]
  obtain ⟨hnotb, hnota⟩ : handle ∉ b ∧ handle ∉ a := by
    have hnd' := List.nodup_append.mp hnd
    exact ⟨(List.nodup_cons.mp hnd'.2.1).1, fun hm => hnd'.2.2 _ hm _ List.mem_cons_self rfl⟩
  have hself : (r.devices handle).prev ≠ some handle := by
    rw [hprev]
    exact fun he => hnota (List.mem_of_getLast? he)
  obtain ⟨hres, hsize, hfirst, hlast, hdev⟩ := Registry.unregister_ok hv hself
  have hhandles := handles_filter hab hnota hnotb
  refine ⟨hres, ?_, ?_, ?_, ?_, ?_, ?_⟩
  · rw [hhandles, hfirst, hdev]
    have hrem := hforth.remove (fun j => (r.unlinked handle j).next) (fun y _ hyl => ?_) (fun y hyl => ?_) hnd
    · have hnil : ((r.devices handle).prev = none) = (a = []) := by
        rw [hprev]
        simp
      simp only [hnil]
      exact hrem
    · simp only [Registry.unlinked, hprev, if_neg hyl]
    · simp only [Registry.unlinked, hprev, if_pos hyl]
  · rw [hhandles, hlast, hdev, List.reverse_append]
    have hrem := hback.remove (fun j => (r.unlinked handle j).prev) (fun y _ hyl => ?_) (fun y hyl => ?_) ?_
    · have hnil : ((r.devices handle).next = none) = (b.reverse = []) := by
        rw [hnext]
        simp
      simp only [hnil]
      exact hrem
    · rw [List.getLast?_reverse] at hyl
      simp only [Registry.unlinked, hnext, if_neg hyl]
    · rw [List.getLast?_reverse] at hyl
      simp only [Registry.unlinked, hnext, if_pos hyl]
    · have hrev : (a ++ handle :: b).reverse = b.reverse ++ handle :: a.reverse := by simp
      rw [← hrev]
      exact (List.reverse_perm _).nodup_iff.mpr hnd
  · rw [hhandles]
    exact hnd.sublist ((List.sublist_cons_self _ _).append_left a)
  · intro e he
    rw [hsize]
    exact h.inside e (List.mem_filter.mp he).1
  · intro e he
    obtain ⟨hel, heh⟩ := List.mem_filter.mp he
    obtain ⟨hreq, hid, hname⟩ := h.holds e hel
    rw [hdev]
    exact ⟨(if_neg (by simpa using heh)).trans hreq, hid, hname⟩
  · intro j hj hjm
    rw [hhandles] at hjm
    rw [hsize] at hj
    rw [hdev]
    by_cases hjh : j = handle
    · exact if_pos hjh
    · refine (if_neg hjh).trans (h.unused j hj fun hm => ?_)
      rw [hab] at hm
      simp only [List.mem_append, List.mem_cons] at hm hjm
      tauto

theorem searchLoop_eq {p : Option ℕ} {n : ℕ} (hp : Path (fun k => (r.devices k).prev) p o none) (hn : o.length ≤ n) :
    r.searchLoop name n p = some (o.find? fun k => strcaseEq (r.devices k).name name) := by
  induction o generalizing p n with
  | nil =>
    obtain rfl : p = none := hp
    cases n <;> rfl
  | cons k o ih =>
    obtain ⟨rfl, ho⟩ := hp
    cases n with
    | zero => cases hn
    | succ n =>
      rw [Registry.searchLoop, List.find?_cons]
      cases hk : strcaseEq (r.devices k).name name with
      | true => rfl
      | false => exact ih ho (Nat.le_of_succ_le_succ hn)

theorem search_eq (h : Inv r l) :
    r.search name = some ((l.reverse.find? fun e => strcaseEq e.name name).map Entry.handle) := by
  have hlen : (handles l).reverse.length ≤ r.devSize := by
    rw [List.length_reverse, handles, List.length_map]
    exact h.length_le
  rw [Registry.search, searchLoop_eq h.back hlen, handles, ← List.map_reverse, List.find?_map]
  have hname : ∀ e ∈ l.reverse, ((fun k => strcaseEq (r.devices k).name name) ∘ Entry.handle) e = strcaseEq e.name name := by
    intro e he
    simp only [Function.comp, (h.holds e (List.mem_reverse.mp he)).2.2]
  rw [List.find?_congr hname]

theorem unused_not_mem (h : Inv r l) : r.unused ∉ handles l := by
  intro hm
  obtain ⟨e, he, heq⟩ := List.mem_map.mp hm
  have hlt : (List.range r.devSize).findIdx (fun k => (r.devices k).request.isNone) < (List.range r.devSize).length := by
    have hin := h.inside e he
    rw [heq] at hin
    rwa [List.length_range]
  have hnone := List.findIdx_getElem (w := hlt)
  have hsome := (h.holds e he).1
  rw [heq] at hsome
  rw [List.getElem_range] at hnone
  change (r.devices r.unused).request.isNone at hnone
  rw [hsome] at hnone
  cases hnone

theorem call (h : Inv r l) (c : Call) : ∃ res r', r.call c = some (res, r') ∧ Inv r' (track c res l) := by
  cases c with
  | register request deviceId name memory =>
    rw [Registry.call, Registry.register, h.search_eq]
    cases l.reverse.find? fun e => strcaseEq e.name name with
    | some e => exact ⟨_, r, rfl, h⟩
    | none =>
      dsimp only [Option.map_none]
      by_cases hk : r.unused = r.devSize
      · rw [if_pos hk]
        cases memory with
        | false => exact ⟨_, r, rfl, h⟩
        | true =>
          have hlt : r.unused < r.grow.devSize := by
            simp only [Registry.grow, devSizeStep, hk]
            omega
          exact ⟨_, _, rfl, h.grow.place hlt h.unused_not_mem request deviceId name⟩
      · rw [if_neg hk]
        have hle : r.unused ≤ r.devSize := by
          have hlen : r.unused ≤ (List.range r.devSize).length := List.findIdx_le_length
          rwa [List.length_range] at hlen
        have hlt : r.unused < r.devSize := by omega
        exact ⟨_, _, rfl, h.place hlt h.unused_not_mem request deviceId name⟩
  | unregister handle =>
    rw [Registry.call]
    cases hv : r.isInvalid handle with
    | true =>
      refine ⟨.error .enodev, r, ?_, h⟩
      rw [Registry.unregister, hv]
      rfl
    | false =>
      obtain ⟨hres, hinv⟩ := h.unregister hv
      refine ⟨(r.unregister handle).1, (r.unregister handle).2, rfl, ?_⟩
      rw [hres]
      exact hinv
  | replace handle request deviceId =>
    rw [Registry.call, Registry.replace]
    cases hv : r.isInvalid handle with
    | true => exact ⟨.error .enodev, r, rfl, h⟩
    | false => exact ⟨.ok 0, _, rfl, h.replace hv request deviceId⟩

end Inv

/-- What the functions that look at the registry say when the devices `l` are registered. -/
structure Shows (r : Registry) (l : List Entry) : Prop where
  distinct : (handles l).Nodup
  forth : ∀ n, l.length ≤ n → cells (fun k => r.next k) n r.first = handles l
  back : ∀ n, l.length ≤ n → cells (fun k => r.prev k) n r.last = (handles l).reverse
  get : ∀ e ∈ l, r.get e.handle = .ok (some e.request, e.deviceId, e.name)
  absent : ∀ k, k ∉ handles l → r.get k = .error .enodev
  search : ∀ name, r.search name = some ((l.reverse.find? fun e => strcaseEq e.name name).map Entry.handle)

theorem Inv.shows (h : Inv r l) : Shows r l := by
  have hvalid : ∀ k ∈ handles l, r.isInvalid k = false := fun k hk => h.mem_iff.mp hk
  constructor
  · exact h.nodup
  · intro n hn
    have hpath : Path (fun k => r.next k) r.first (handles l) none := h.forth.congr fun k hk => by
      rw [Registry.next, hvalid k hk]
      rfl
    exact hpath.cells_eq (by rwa [handles, List.length_map])
  · intro n hn
    have hpath : Path (fun k => r.prev k) r.last (handles l).reverse none := h.back.congr fun k hk => by
      rw [Registry.prev, hvalid k (List.mem_reverse.mp hk)]
      rfl
    exact hpath.cells_eq (by rwa [List.length_reverse, handles, List.length_map])
  · intro e he
    obtain ⟨hreq, hid, hname⟩ := h.holds e he
    rw [Registry.get, hvalid _ (List.mem_map_of_mem he), hreq, hid, hname]
    rfl
  · intro k hk
    have hinvalid : r.isInvalid k = true := by
      cases hv : r.isInvalid k with
      | true => rfl
      | false => exact absurd (h.mem_iff.mpr hv) hk
    rw [Registry.get, hinvalid]
    rfl
  · exact fun name => h.search_eq

/-- A run of calls with the devices that are registered after it. -/
def run : List Call → Registry → List Entry → Option (Registry × List Entry)
  | [], r, l => some (r, l)
  | c :: calls, r, l => (r.call c).bind fun x => run calls x.2 (track c x.1 l)

theorem Inv.run (h : Inv r l) (calls : List Call) : ∃ r' l', Devices.run calls r l = some (r', l') ∧ Inv r' l' := by
  induction calls generalizing r l with
  | nil => exact ⟨r, l, rfl, h⟩
  | cons c calls ih =>
    obtain ⟨res, r', hcall, hinv⟩ := h.call c
    obtain ⟨r'', l'', hrun, hinv'⟩ := ih hinv
    refine ⟨r'', l'', ?_, hinv'⟩
    rw [Devices.run, hcall]
    exact hrun

/-- After every run of calls the walks go through the registered devices in the order of their registration, and each
device is found under the handle it was given. -/
theorem run_shows (calls : List Call) : ∃ r l, run calls .start [] = some (r, l) ∧ Shows r l := by
  obtain ⟨r, l, hrun, hinv⟩ := inv_start.run calls
  exact ⟨r, l, hrun, hinv.shows⟩

end FreeDos32.Devices
