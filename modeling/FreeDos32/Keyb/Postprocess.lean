import FreeDos32.Keyb.Queues

namespace FreeDos32.Keyb

/-- Where `postprocess` is: before `rawqueue_read`, with a raw code read, or before the `keyqueue_get` of a strange key. -/
inductive Post where
  | idle
  | read
  | decode (code : BitVec 8)
  | skip
  deriving DecidableEq

def Post.code : Post → Option (BitVec 8)
  | .decode code => some code
  | _ => none

/-- `puts` are the raw codes put in, `done` those that have been decoded and what they have been decoded to, and `got` the keys
that `keyqueue_get` has returned to its callers. -/
structure World where
  queues : Queues
  post : Post
  puts : List (BitVec 8)
  done : List (BitVec 8 × BitVec 16)
  got : List (BitVec 16)

/-- The calls that are made, and the steps of `postprocess`; the status is what `stdst` holds when a code is decoded. -/
inductive Action where
  | rawqueuePut (code : BitVec 8)
  | keyqueueGet
  | postprocess
  | turn (stdst : StdStatus)

namespace World

/-- What the loop of `postprocess` decodes a raw code to. -/
def decoded (keybDecode : BitVec 8 → StdStatus → BitVec 16) (code : BitVec 8) (stdst : StdStatus) : BitVec 16 :=
  if code &&& 0x80 ≠ 0 then keybDecode (code &&& 0x7F) { stdst with e0Prefix := true } else keybDecode code stdst

def get (w : World) : World :=
  let (char, queues) := w.queues.keyqueueGet
  { w with queues, got := if w.queues.keyqueueEmpty then w.got else w.got ++ [queues.rawqueueGet ++ char] }

def turn (keybDecode : BitVec 8 → StdStatus → BitVec 16) (stdst : StdStatus) (w : World) : Option World :=
  match w.post with
  | .idle => none
  | .read =>
    let code := w.queues.rawqueueRead
    some { w with post := if code = 0 then .idle else .decode code }
  | .decode code =>
    let key := decoded keybDecode code stdst
    some { w with
      queues := w.queues.keyqueuePut key
      post := if key = 0 then .skip else .read
      done := w.done ++ [(code, key)] }
  | .skip => some { w with queues := w.queues.keyqueueGet.2, post := .read }

/-- The keyboard's interrupts are off until the handler has ended, so `postprocess` is not called again before. -/
def step (keybDecode : BitVec 8 → StdStatus → BitVec 16) : Action → World → Option World
  | .rawqueuePut code, w => some { w with queues := w.queues.rawqueuePut code, puts := w.puts ++ [code] }
  | .keyqueueGet, w => some w.get
  | .postprocess, w => if w.post = .idle then some { w with post := .read } else none
  | .turn stdst, w => w.turn keybDecode stdst

def cleared (s : Queues) : World := ⟨s.keybQueueClear, .idle, [], [], []⟩

def keysOf (done : List (BitVec 8 × BitVec 16)) : List (BitVec 16) := (done.map Prod.snd).filter (· ≠ 0)

/-- The keys that the raw codes have been decoded to so far. -/
def values (w : World) : List (BitVec 16) := keysOf w.done

/-- A raw code finds room behind the keys and the raw codes that are there; a key that is put in is not the sixteenth; and a
strange key finds no other in the queue, and is not fetched before it is skipped. -/
def Roomy (keybDecode : BitVec 8 → StdStatus → BitVec 16) (w : World) : Action → Prop
  | .rawqueuePut _ => w.queues.raws.length < 15 ∧ w.queues.keys.length + w.queues.raws.length < 16
  | .keyqueueGet => w.post ≠ .skip
  | .postprocess => True
  | .turn stdst => ∀ code ∈ w.post.code,
      let key := decoded keybDecode code stdst
      (key = 0 → w.queues.keys = []) ∧ (key ≠ 0 → w.queues.keys.length < 15)

instance (keybDecode : BitVec 8 → StdStatus → BitVec 16) (w : World) : DecidablePred (Roomy keybDecode w)
  | .rawqueuePut _ => inferInstanceAs (Decidable (_ ∧ _))
  | .keyqueueGet => inferInstanceAs (Decidable (_ ≠ _))
  | .postprocess => inferInstanceAs (Decidable True)
  | .turn _ => inferInstanceAs (Decidable (∀ _ ∈ _, _ ∧ _))

/-- The keys returned are the first of the values that the raw codes have been decoded to, the others are in the queue, and the
raw codes that have not been decoded are behind them. -/
structure Faithful (w : World) : Prop where
  inOrder : w.got <+: w.values
  kept : w.post ≠ .skip → w.got ++ w.queues.keys = w.values
  codes : w.done.map Prod.fst ++ w.queues.raws = w.puts

/-- The invariant: the buffer's contents, and where `postprocess` is with them. -/
structure Inv (w : World) : Prop where
  window : ∃ h q p, w.queues.Window h q p
  codes : w.done.map Prod.fst ++ w.queues.raws = w.puts
  kept : w.post ≠ .skip → w.got ++ w.queues.keys = w.values
  read : ∀ code ∈ w.post.code, w.queues.raws.head? = some code
  strange : w.post = .skip → w.queues.keys = [0] ∧ w.got = w.values

section Steps

variable {keybDecode : BitVec 8 → StdStatus → BitVec 16} {w w' : World} {h q p : ℕ} {stdst : StdStatus} {code : BitVec 8}

theorem keys_length (hw : w.queues.Window h q p) : w.queues.keys.length = q := by
  rw [hw.keys_eq, ring_length]

theorem raws_length (hw : w.queues.Window h q p) : w.queues.raws.length = p := by
  rw [hw.raws_eq, ring_length]

theorem Inv.faithful (hw : w.Inv) : w.Faithful := by
  refine ⟨?_, hw.kept, hw.codes⟩
  by_cases hskip : w.post = .skip
  · exact (hw.strange hskip).2 ▸ List.prefix_refl _
  · rw [← hw.kept hskip]
    exact List.prefix_append _ _

theorem cleared_inv (s : Queues) : (cleared s).Inv := by
  have hw := s.keybQueueClear_window
  have hkeys : s.keybQueueClear.keys = [] := by rw [hw.keys_eq, ring_zero]
  have hraws : s.keybQueueClear.raws = [] := by rw [hw.raws_eq, ring_zero]
  constructor
  · exact ⟨0, 0, 0, hw⟩
  · simp [cleared, hraws]
  · simp [cleared, hkeys, values, keysOf]
  · simp [cleared, Post.code]
  · simp [cleared]

theorem Inv.rawqueuePut (hw : w.Inv) (hroom : w.Roomy keybDecode (.rawqueuePut code)) :
    Inv { w with queues := w.queues.rawqueuePut code, puts := w.puts ++ [code] } := by
  obtain ⟨h, q, p, hwin⟩ := hw.window
  obtain ⟨hp, hfits⟩ := hroom
  rw [keys_length hwin, raws_length hwin] at hfits
  rw [raws_length hwin] at hp
  have hkeys := Queues.keys_rawqueuePut hwin hp hfits code
  have hraws := Queues.raws_rawqueuePut hwin hp hfits code
  constructor
  · exact ⟨h, q, p + 1, hwin.rawqueuePut hp hfits code⟩
  · simp [hraws, ← hw.codes]
  · intro hskip
    simp only [hkeys]
    exact hw.kept hskip
  · intro c hc
    simp [hraws, hw.read c hc]
  · intro hskip
    simp only [hkeys]
    exact hw.strange hskip

theorem Inv.get (hw : w.Inv) (hskip : w.post ≠ .skip) : w.get.Inv := by
  obtain ⟨h, q, p, hwin⟩ := hw.window
  cases q with
  | zero =>
    have hempty : w.queues.keyqueueEmpty := (Queues.keyqueueEmpty_iff hwin).2 rfl
    have hget := Queues.keyqueueGet_of_empty hwin
    unfold World.get
    rw [hget]
    simp only [hempty, if_true]
    exact ⟨⟨h, 0, p, hwin.head, hwin.tail, hwin.rawTail, hwin.fewKeys, hwin.fewRaws, hwin.fits⟩, hw.codes, hw.kept, hw.read,
      hw.strange⟩
  | succ q =>
    have hempty : ¬w.queues.keyqueueEmpty := fun he => absurd ((Queues.keyqueueEmpty_iff hwin).1 he) (Nat.succ_ne_zero q)
    obtain ⟨hkeys, hraws⟩ := Queues.keys_keyqueueGet hwin
    constructor
    · exact ⟨h + 1, q, p, hwin.keyqueueGet⟩
    · simp only [World.get, hraws]
      exact hw.codes
    · intro _
      have hkept := hw.kept hskip
      rw [hkeys, values] at hkept
      simpa [World.get, hempty, values] using hkept
    · simp only [World.get, hraws]
      exact hw.read
    · exact fun h => absurd h hskip

theorem keysOf_strange (done : List (BitVec 8 × BitVec 16)) (code : BitVec 8) : keysOf (done ++ [(code, 0)]) = keysOf done := by
  simp [keysOf]

theorem keysOf_key (done : List (BitVec 8 × BitVec 16)) (code : BitVec 8) {key : BitVec 16} (hkey : key ≠ 0) :
    keysOf (done ++ [(code, key)]) = keysOf done ++ [key] := by
  rw [keysOf, List.map_append, List.filter_append]
  congr 1
  exact List.filter_cons_of_pos (decide_eq_true hkey)

theorem Inv.read_turn (hw : w.Inv) (hpost : w.post = .read) :
    Inv { w with post := if w.queues.rawqueueRead = 0 then .idle else .decode w.queues.rawqueueRead } := by
  obtain ⟨h, q, p, hwin⟩ := hw.window
  have hkept := hw.kept (by simp [hpost])
  by_cases h0 : w.queues.rawqueueRead = 0
  · rw [if_pos h0]
    exact ⟨hw.window, hw.codes, fun _ => hkept, by simp [Post.code], by simp⟩
  · rw [if_neg h0]
    refine ⟨hw.window, hw.codes, fun _ => hkept, ?_, by simp⟩
    intro code hcode
    obtain rfl := Option.some.inj hcode
    rw [Queues.rawqueueRead_eq hwin] at h0 ⊢
    cases p with
    | zero => exact absurd rfl h0
    | succ p =>
      rw [if_neg (Nat.succ_ne_zero p)]
      simp [hwin.raws_eq, ring_cons]

/-- A code that has been read is the first of the raw codes, and a key in its slot takes its place. -/
theorem Inv.slot (hw : w.Inv) (hpost : w.post = .decode code) (hroom : w.queues.keys.length < 15) (key : BitVec 16) :
    (∃ h q p, (w.queues.keyqueuePut key).Window h q p) ∧ (w.queues.keyqueuePut key).keys = w.queues.keys ++ [key] ∧
    w.queues.raws = code :: (w.queues.keyqueuePut key).raws := by
  obtain ⟨h, q, p, hwin⟩ := hw.window
  have hhead := hw.read code (by simp [hpost, Post.code])
  rw [keys_length hwin] at hroom
  cases p with
  | zero => simp [hwin.raws_eq] at hhead
  | succ p =>
    have hraws := Queues.raws_keyqueuePut hwin hroom key
    rw [hraws, List.head?_cons, Option.some.injEq] at hhead
    rw [hhead] at hraws
    exact ⟨⟨h, q + 1, p, hwin.keyqueuePut hroom key⟩, Queues.keys_keyqueuePut hwin hroom key, hraws⟩

theorem Inv.strange_turn (hw : w.Inv) (hpost : w.post = .decode code) (hkeys : w.queues.keys = []) :
    Inv { w with queues := w.queues.keyqueuePut 0, post := .skip, done := w.done ++ [(code, 0)] } := by
  obtain ⟨hwin, hput, hraws⟩ := hw.slot hpost (by simp [hkeys]) 0
  have hkept := hw.kept (by simp [hpost])
  rw [hkeys, List.append_nil] at hkept
  constructor
  · exact hwin
  · simp [← hw.codes, hraws]
  · exact fun h => absurd rfl h
  · simp [Post.code]
  · intro _
    constructor
    · rw [hput, hkeys]
      rfl
    · rw [values, keysOf_strange]
      exact hkept

theorem Inv.key_turn (hw : w.Inv) (hpost : w.post = .decode code) {key : BitVec 16} (hkey : key ≠ 0)
    (hroom : w.queues.keys.length < 15) :
    Inv { w with queues := w.queues.keyqueuePut key, post := .read, done := w.done ++ [(code, key)] } := by
  obtain ⟨hwin, hput, hraws⟩ := hw.slot hpost hroom key
  have hkept := hw.kept (by simp [hpost])
  constructor
  · exact hwin
  · simp [← hw.codes, hraws]
  · intro _
    rw [values, keysOf_key _ _ hkey]
    simp only [hput]
    rw [← List.append_assoc, hkept]
    rfl
  · simp [Post.code]
  · simp

theorem Inv.skip_turn (hw : w.Inv) (hpost : w.post = .skip) :
    Inv { w with queues := w.queues.keyqueueGet.2, post := .read } := by
  obtain ⟨h, q, p, hwin⟩ := hw.window
  obtain ⟨hkeys, hgot⟩ := hw.strange hpost
  have hlength := keys_length hwin
  rw [hkeys] at hlength
  obtain rfl : q = 0 + 1 := hlength.symm
  obtain ⟨hget, hraws⟩ := Queues.keys_keyqueueGet hwin
  rw [hkeys] at hget
  have hnil := (List.cons.inj hget).2
  constructor
  · exact ⟨h + 1, 0, p, hwin.keyqueueGet⟩
  · simp only [hraws]
    exact hw.codes
  · intro _
    simp only [← hnil, List.append_nil]
    exact hgot
  · simp [Post.code]
  · simp

theorem Inv.turn (hw : w.Inv) (hroom : w.Roomy keybDecode (.turn stdst)) (hturn : w.turn keybDecode stdst = some w') :
    w'.Inv := by
  unfold World.turn at hturn
  cases hpost : w.post with
  | idle =>
    rw [hpost] at hturn
    cases hturn
  | read =>
    rw [hpost] at hturn
    obtain rfl := Option.some.inj hturn
    exact hw.read_turn hpost
  | decode code =>
    rw [hpost] at hturn
    obtain rfl := Option.some.inj hturn
    obtain ⟨hstrange, hkeys⟩ := hroom code (by simp [hpost, Post.code])
    by_cases hkey : decoded keybDecode code stdst = 0
    · rw [if_pos hkey, hkey]
      exact hw.strange_turn hpost (hstrange hkey)
    · rw [if_neg hkey]
      exact hw.key_turn hpost hkey (hkeys hkey)
  | skip =>
    rw [hpost] at hturn
    obtain rfl := Option.some.inj hturn
    exact hw.skip_turn hpost

theorem Inv.step {a : Action} (hw : w.Inv) (hroom : w.Roomy keybDecode a) (hstep : step keybDecode a w = some w') : w'.Inv := by
  cases a with
  | rawqueuePut code =>
    obtain rfl := Option.some.inj hstep
    exact hw.rawqueuePut hroom
  | keyqueueGet =>
    obtain rfl := Option.some.inj hstep
    exact hw.get hroom
  | postprocess =>
    simp only [World.step] at hstep
    split at hstep
    · rename_i hidle
      obtain rfl := Option.some.inj hstep
      exact ⟨hw.window, hw.codes, fun _ => hw.kept (by simp [hidle]), by simp [Post.code], by simp⟩
    · cases hstep
  | turn stdst => exact hw.turn hroom hstep

end Steps

section Examples

def noStatus : StdStatus :=
  ⟨false, false, false, false, false, false, false, false, false, false, false, false, false⟩

def freshQueues : Queues := ⟨fun _ => 0, 0, 0, 0, 0, 0⟩

/-- The letter A and nothing else. -/
def onlyA (code : BitVec 8) (_ : StdStatus) : BitVec 16 := if code = 0x1E then 0x1E61 else 0

/-- A key arrives, is decoded and the queue is read again. -/
def typed (code : BitVec 8) : List Action :=
  [.rawqueuePut code, .postprocess, .turn noStatus, .turn noStatus, .turn noStatus]

end Examples

end World

end FreeDos32.Keyb
