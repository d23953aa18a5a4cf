import FreeDos32.Errno
import FreeDos32.Filesys.Truename
import FreeDos32.Library.Path

namespace FreeDos32.Devices

open Filesys (strcaseEq)

/-- An element of the array; `none` stands for a null request function and for the index `-ENODEV`. -/
structure Device where
  request : Option ℕ
  deviceId : ℕ
  name : List Char
  prev : Option ℕ
  next : Option ℕ
  deriving DecidableEq

def zeroed : Device := ⟨none, 0, [], some 0, some 0⟩

def devSizeStep : ℕ := 20

/-- The array has the elements below `devSize`. -/
structure Registry where
  devices : ℕ → Device
  devSize : ℕ
  devFirst : Option ℕ
  devLast : Option ℕ

namespace Registry

def start : Registry := ⟨fun _ => zeroed, 0, none, none⟩

def set (k : ℕ) (d : Device) (r : Registry) : Registry := { r with devices := Function.update r.devices k d }

def isInvalid (handle : ℕ) (r : Registry) : Bool := r.devSize ≤ handle || (r.devices handle).request.isNone

/-- The request function, the device identifier and the name. -/
def get (handle : ℕ) (r : Registry) : Except Errno (Option ℕ × ℕ × List Char) :=
  if r.isInvalid handle then .error .enodev
  else .ok ((r.devices handle).request, (r.devices handle).deviceId, (r.devices handle).name)

/-- `none` when the loop has not ended within the given number of turns. -/
def searchLoop (name : List Char) (r : Registry) : ℕ → Option ℕ → Option (Option ℕ)
  | _, none => some none
  | 0, some _ => none
  | n + 1, some k => if strcaseEq (r.devices k).name name then some (some k) else searchLoop name r n (r.devices k).prev

/-- A loop that takes more turns than there are elements comes back to where it was and never ends. -/
def search (name : List Char) (r : Registry) : Option (Option ℕ) := searchLoop name r r.devSize r.devLast

def first (r : Registry) : Option ℕ := r.devFirst

def last (r : Registry) : Option ℕ := r.devLast

def next (handle : ℕ) (r : Registry) : Option ℕ := if r.isInvalid handle then none else (r.devices handle).next

def prev (handle : ℕ) (r : Registry) : Option ℕ := if r.isInvalid handle then none else (r.devices handle).prev

/-- The loop over the array for an unused element; it comes to `devSize` when there is none. -/
def unused (r : Registry) : ℕ := (List.range r.devSize).findIdx fun k => (r.devices k).request.isNone

def grow (r : Registry) : Registry :=
  { r with devices := fun k => if k < r.devSize then r.devices k else zeroed, devSize := r.devSize + devSizeStep }

def place (k request deviceId : ℕ) (name : List Char) (r : Registry) : Registry :=
  let r := r.set k ⟨some request, deviceId, name, r.devLast, none⟩
  let r := match r.devLast with
    | some j => r.set j { r.devices j with next := some k }
    | none => { r with devFirst := some k }
  { r with devLast := some k }

/-- `memory` is whether there is memory for a larger array; the result is `none` when the search for the name does not
end. -/
def register (request deviceId : ℕ) (name : List Char) (memory : Bool) (r : Registry) :
    Option (Except Errno ℕ × Registry) :=
  match r.search name with
  | none => none
  | some (some _) => some (.error .eexist, r)
  | some none =>
    let k := r.unused
    if k = r.devSize then
      if memory then some (.ok k, r.grow.place k request deviceId name) else some (.error .enomem, r)
    else some (.ok k, r.place k request deviceId name)

def unlinkForth (handle : ℕ) (r : Registry) : Registry :=
  match (r.devices handle).prev with
  | some j => r.set j { r.devices j with next := (r.devices handle).next }
  | none => { r with devFirst := (r.devices handle).next }

def unlinkBack (handle : ℕ) (r : Registry) : Registry :=
  match (r.devices handle).next with
  | some j => r.set j { r.devices j with prev := (r.devices handle).prev }
  | none => { r with devLast := (r.devices handle).prev }

def unregister (handle : ℕ) (r : Registry) : Except Errno ℕ × Registry :=
  if r.isInvalid handle then (.error .enodev, r)
  else (.ok 0, ((r.set handle { r.devices handle with request := none }).unlinkForth handle).unlinkBack handle)

def replace (handle request deviceId : ℕ) (r : Registry) : Except Errno ℕ × Registry :=
  if r.isInvalid handle then (.error .enodev, r)
  else (.ok 0, r.set handle { r.devices handle with request := some request, deviceId })

end Registry

inductive Call where
  | register (request deviceId : ℕ) (name : List Char) (memory : Bool)
  | unregister (handle : ℕ)
  | replace (handle request deviceId : ℕ)

def Registry.call : Call → Registry → Option (Except Errno ℕ × Registry)
  | .register request deviceId name memory, r => r.register request deviceId name memory
  | .unregister handle, r => some (r.unregister handle)
  | .replace handle request deviceId, r => some (r.replace handle request deviceId)

end FreeDos32.Devices
