import FreeDos32.Fat.Pathreso

namespace FreeDos32.Fat

/-- The calls that the rest of the system makes on a mounted volume. -/
inductive Request where
  | openPr (dentry : ℕ) (pn : List UInt8) (flags : ℕ) (mode : UInt8)
  | unlinkPr (dentry : ℕ) (pn : List UInt8)
  | renamePr (odentry : ℕ) (on : List UInt8) (ndentry : ℕ) (nn : List UInt8)
  | mkdirPr (dentry : ℕ) (pn : List UInt8) (mode : UInt8)
  | rmdirPr (dentry : ℕ) (pn : List UInt8)
  | read (c size : ℕ)
  | write (c : ℕ) (buffer : List UInt8)
  | ftruncate (c : ℕ) (length : Int)
  | lseek (c : ℕ) (offset : Int) (whence : Whence)
  | fsync (c : ℕ) (datasync : Bool)
  | addref (c : ℕ)
  | close (c : ℕ)

/-- The root directory and the nodes of open instances: those that stay until the caller is done. -/
def Volume.Held (v : Volume) (d : ℕ) : Prop :=
  d = rootDentry ∨ ∃ c ∈ v.channelsOpen, (v.channels c).dentry = some d

instance (v : Volume) (d : ℕ) : Decidable (v.Held d) :=
  inferInstanceAs (Decidable (_ ∨ ∃ c ∈ _, _))

namespace Request

def exec : Request → FatM Unit
  | openPr dentry pn flags mode => do let _ ← fatOpenPr dentry pn flags mode
  | unlinkPr dentry pn => fatUnlinkPr dentry pn
  | renamePr odentry on ndentry nn => fatRenamePr odentry on ndentry nn
  | mkdirPr dentry pn mode => fatMkdirPr dentry pn mode
  | rmdirPr dentry pn => fatRmdirPr dentry pn
  | read c size => do let _ ← fatRead c size
  | write c buffer => do let _ ← fatWrite c buffer
  | ftruncate c length => do let _ ← fatFtruncate c length
  | lseek c offset whence => do let _ ← fatLseek c offset whence
  | fsync c datasync => fatFsync c datasync
  | addref c => do let _ ← fatAddref c
  | close c => fatClose c

/-- Pathnames start at nodes that the caller may use, the other calls are on open instances. -/
def Valid (v : Volume) : Request → Prop
  | openPr d _ _ _ | unlinkPr d _ | mkdirPr d _ _ | rmdirPr d _ => v.Held d
  | renamePr od _ nd _ => v.Held od ∧ v.Held nd
  | read c _ | write c _ | ftruncate c _ | lseek c _ _ | fsync c _ | addref c | close c => c ∈ v.channelsOpen

instance (v : Volume) (r : Request) : Decidable (r.Valid v) := by
  cases r <;> unfold Valid <;> infer_instance

end Request

/-- The states reached by requests that return, each of which meets `ok` in the state it is made in. -/
inductive Run (ok : Volume → Request → Prop) (v₀ : Volume) : Volume → Prop
  | start : Run ok v₀ v₀
  | step {v w : Volume} {r : Request} {out : Outcome Errno Unit} (h : Run ok v₀ v) (hvalid : r.Valid v)
      (hok : ok v r) (hrun : r.exec.run v = (out, w)) (hret : out ≠ .hang) : Run ok v₀ w

theorem Run.next {ok : Volume → Request → Prop} {v₀ v : Volume} (h : Run ok v₀ v) (r : Request)
    (hvalid : r.Valid v) (hok : ok v r) (hret : (r.exec.run v).1 ≠ .hang) : Run ok v₀ (r.exec.run v).2 :=
  .step h hvalid hok rfl hret

theorem Run.invariant {ok : Volume → Request → Prop} {v₀ v : Volume} {I : Volume → Prop} (h₀ : I v₀)
    (hstep : ∀ v r, I v → r.Valid v → ok v r → Prog.Triple (· = v) r.exec (fun _ => I) (fun _ => I))
    (h : Run ok v₀ v) : I v := by
  induction h with
  | start => exact h₀
  | @step v w r out _ hvalid hok hrun hret ih =>
    have ht := hstep v r ih hvalid hok v rfl
    rw [hrun] at ht
    cases out with
    | ok a => exact ht
    | error e => exact ht
    | hang => exact absurd rfl hret

def execAll : List Request → Volume → Volume
  | [], v => v
  | r :: rs, v => execAll rs (r.exec.run v).2

def Returns : List Request → Volume → Prop
  | [], _ => True
  | r :: rs, v => r.Valid v ∧ (r.exec.run v).1 ≠ .hang ∧ Returns rs (r.exec.run v).2

instance decidableReturns : (rs : List Request) → (v : Volume) → Decidable (Returns rs v)
  | [], _ => .isTrue trivial
  | r :: rs, v =>
    have := decidableReturns rs (r.exec.run v).2
    inferInstanceAs (Decidable (_ ∧ _ ∧ _))

theorem Run.execAll {v₀ v : Volume} (rs : List Request) (h : Run (fun _ _ => True) v₀ v) (hr : Returns rs v) :
    Run (fun _ _ => True) v₀ (execAll rs v) := by
  induction rs generalizing v with
  | nil => exact h
  | cons r rs ih => exact ih (h.next r hr.1 trivial hr.2.1) hr.2.2

end FreeDos32.Fat
