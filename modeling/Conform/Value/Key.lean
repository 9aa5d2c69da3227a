import Conform.Value.Atom

/-!
# Keys and paths

A key is an atom or a tuple of keys. Keys are compared loosely: `1`, `1.0`
and true are one key. What is not a number is one key too, so the
comparison is an equivalence.

A path is a list of keys that leads from the root of a value to a place in
it: keys of mappings, and integers as places in sequences.
-/

namespace Conform

/-- What decides which key an atom is: the place of a number, the instant of
a moment, else the atom itself. -/
inductive KeyClass where
  | number (place : Option Measure)
  | moment (aware : Bool) (instant : Int)
  | plain (a : Atom)
  deriving DecidableEq

/-- The class of an atom as a key. -/
def Atom.keyClass (a : Atom) : KeyClass :=
  match a.count? with
  | some n => .number n.measure?
  | none =>
    match a with
    | .moment m => .moment m.offset.isSome m.instant
    | a => .plain a

/-- What a mapping may be asked for. -/
inductive Key where
  | atom (a : Atom)
  | tuple (ks : List Key)
  deriving Repr, Inhabited

/-- The way from the root of a value to a place in it. -/
abbrev Path := List Key

namespace Key

/-- The key that is a text. -/
@[match_pattern] abbrev text (s : String) : Key := .atom (.text s)

/-- The key of a place in a sequence. -/
abbrev index (i : Nat) : Key := .atom (.int i)

mutual

/-- Whether two keys are the same. -/
def same : Key → Key → Bool
  | atom a, atom b => a.keyClass = b.keyClass
  | tuple ks, tuple ls => sameAll ks ls
  | _, _ => false

/-- Whether two runs of keys are the same, one by one. -/
def sameAll : List Key → List Key → Bool
  | [], [] => true
  | k :: ks, l :: ls => k.same l && sameAll ks ls
  | _, _ => false

end

/-! ## Sameness is an equivalence -/

mutual

@[simp] theorem same_self (k : Key) : k.same k = true := by
  cases k with
  | atom a => simp [same]
  | tuple ks => simpa [same] using sameAll_self ks

@[simp] theorem sameAll_self (ks : List Key) : sameAll ks ks = true := by
  cases ks with
  | nil => rfl
  | cons k ks => simp [sameAll, same_self k, sameAll_self ks]

end

mutual

theorem same_comm (k l : Key) : k.same l = l.same k := by
  cases k with
  | atom a => cases l <;> simp [same, eq_comm]
  | tuple ks =>
    cases l with
    | atom b => rfl
    | tuple ls => simpa [same] using sameAll_comm ks ls

theorem sameAll_comm (ks ls : List Key) : sameAll ks ls = sameAll ls ks := by
  cases ks with
  | nil => cases ls <;> rfl
  | cons k ks =>
    cases ls with
    | nil => rfl
    | cons l ls => simp [sameAll, same_comm k l, sameAll_comm ks ls]

end

mutual

theorem same_trans {k l m : Key} (h : k.same l = true) (h' : l.same m = true) :
    k.same m = true := by
  cases k <;> cases l <;> cases m <;> simp_all [same]
  exact sameAll_trans h h'

theorem sameAll_trans {ks ls ms : List Key} (h : sameAll ks ls = true)
    (h' : sameAll ls ms = true) : sameAll ks ms = true := by
  cases ks with
  | nil => cases ls <;> simp_all [sameAll]
  | cons k ks =>
    cases ls with
    | nil => simp [sameAll] at h
    | cons l ls =>
      cases ms with
      | nil => simp [sameAll] at h'
      | cons m ms =>
        simp only [sameAll, Bool.and_eq_true] at h h' ⊢
        exact ⟨same_trans h.1 h'.1, sameAll_trans h.2 h'.2⟩

end

/-- Keys that are the same are the same as the same others. -/
theorem same_congr {k l : Key} (h : k.same l = true) (m : Key) : k.same m = l.same m := by
  rw [Bool.eq_iff_iff]
  exact ⟨fun h' => same_trans (same_comm l k ▸ h) h', fun h' => same_trans h h'⟩

/-- Keys that are the same are asked for by the same others. -/
theorem same_congr_right {k l : Key} (h : k.same l = true) (m : Key) : m.same k = m.same l := by
  rw [same_comm m k, same_comm m l, same_congr h]

end Key

/-- Entries of a mapping, in the order in which their keys were first put. -/
abbrev Entries (α : Type) := List (Key × α)

namespace Entries

variable {α : Type}

/-- The value at a key. -/
def find? (es : Entries α) (k : Key) : Option α :=
  match es with
  | [] => none
  | (l, a) :: rest => if l.same k then some a else find? rest k

/-- Whether a key is there. -/
def has (es : Entries α) (k : Key) : Bool := es.any fun e => e.1.same k

/-- Puts a value at a key: in place if the key is there, else at the end. -/
def put (es : Entries α) (k : Key) (a : α) : Entries α :=
  match es with
  | [] => [(k, a)]
  | (l, b) :: rest => if l.same k then (l, a) :: rest else (l, b) :: put rest k a

/-- Puts all entries of a second mapping, in order. -/
def putAll (es fs : Entries α) : Entries α := fs.foldl (fun acc e => acc.put e.1 e.2) es

/-- The entries with distinct keys: the place of the first, the value of the
last. -/
def distinct (es : Entries α) : Entries α := putAll [] es

/-- The keys in order. -/
def keys (es : Entries α) : List Key := es.map (·.1)

@[simp] theorem find?_nil (k : Key) : find? ([] : Entries α) k = none := rfl

@[simp] theorem keys_nil : keys ([] : Entries α) = [] := rfl

@[simp] theorem keys_cons (e : Key × α) (es : Entries α) : keys (e :: es) = e.1 :: keys es := rfl

@[simp] theorem has_nil (k : Key) : has ([] : Entries α) k = false := rfl

@[simp] theorem has_cons (e : Key × α) (es : Entries α) (k : Key) :
    has (e :: es) k = (e.1.same k || has es k) := rfl

/-- A key is there exactly if a value is found at it. -/
theorem isSome_find? (es : Entries α) (k : Key) : (es.find? k).isSome = es.has k := by
  induction es with
  | nil => rfl
  | cons e es ih =>
    obtain ⟨l, a⟩ := e
    by_cases h : l.same k <;> simp [find?, h, ih]

/-- The value that was put at a key is found there. -/
theorem find?_put_of_same (es : Entries α) {k l : Key} (a : α) (h : k.same l = true) :
    (es.put k a).find? l = some a := by
  induction es with
  | nil => simp [put, find?, h]
  | cons e es ih =>
    obtain ⟨m, b⟩ := e
    by_cases hm : m.same k
    · simp [put, find?, hm, Key.same_trans hm h]
    · have hl : m.same l = false := by
        simpa [Key.same_congr_right h] using hm
      simp [put, find?, hm, hl, ih]

/-- Putting a value at a key changes nothing at the others. -/
theorem find?_put_of_not_same (es : Entries α) {k l : Key} (a : α) (h : k.same l = false) :
    (es.put k a).find? l = es.find? l := by
  induction es with
  | nil => simp [put, find?, h]
  | cons e es ih =>
    obtain ⟨m, b⟩ := e
    by_cases hm : m.same k
    · have hl : m.same l = false := by rw [Key.same_congr hm, h]
      simp [put, find?, hm, hl]
    · by_cases hl : m.same l <;> simp [put, find?, hm, hl, ih]

/-- What is found is the value of an entry. -/
theorem exists_mem_of_find? {es : Entries α} {k : Key} {a : α} (h : es.find? k = some a) :
    ∃ l, (l, a) ∈ es := by
  induction es with
  | nil => cases h
  | cons e es ih =>
    obtain ⟨m, b⟩ := e
    rw [find?] at h
    split at h
    · cases h
      exact ⟨m, List.mem_cons_self⟩
    · obtain ⟨l, hl⟩ := ih h
      exact ⟨l, List.mem_cons_of_mem _ hl⟩

/-- An entry after a put is one that was there, or holds what was put. -/
theorem mem_put {es : Entries α} {k : Key} {a : α} {e : Key × α} (h : e ∈ es.put k a) :
    e ∈ es ∨ e.2 = a := by
  induction es with
  | nil => simp_all [put]
  | cons d es ih =>
    obtain ⟨m, b⟩ := d
    simp only [put] at h
    split at h
    · rcases List.mem_cons.mp h with rfl | h
      · exact .inr rfl
      · exact .inl (List.mem_cons_of_mem _ h)
    · rcases List.mem_cons.mp h with rfl | h
      · exact .inl List.mem_cons_self
      · exact (ih h).imp_left (List.mem_cons_of_mem _)

/-- The keys after a put: those before it and, unless it was there, the new
one. -/
theorem keys_put (es : Entries α) (k : Key) (a : α) :
    (es.put k a).keys = if es.has k then es.keys else es.keys ++ [k] := by
  induction es with
  | nil => rfl
  | cons e es ih =>
    obtain ⟨m, b⟩ := e
    by_cases hm : m.same k
    · simp [put, hm]
    · by_cases hk : has es k <;> simp [put, hm, ih, hk]

end Entries

end Conform
