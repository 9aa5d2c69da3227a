import Conform.Proofs.Admission
import Conform.RecordModel

/-!
# What types say of values

A field of a record model has a type, which says of every value whether it is one of that type.
Numbers are taken by where they lie, so that a whole number is an integer however it is written
and every number is a decimal one; a date is a moment; a literal takes whatever is of its kind
and equal to it. A dictionary is a mapping with texts for keys. A model takes mappings in which
what is there of its fields is of their types.

Types are put together up to sameness: of two types that are the same a union keeps one, and so
does a literal of two members. That does not change what is of the type.

## Main definitions

* `FieldType.admits` — whether a value is of a type, looked up in a store.

## Main results

* `FieldType.admits_of_same` — types that are the same have the same values.
* `FieldType.admits_unionOf` — a union has the values of its members.
* `FieldType.admits_literalOf` — a literal has its members, however they were given.
-/

namespace Conform

/-- Whether a key is a text. -/
def Key.isText : Key → Bool
  | .text _ => true
  | _ => false

theorem Key.isText_iff {k : Key} : k.isText = true ↔ ∃ n, k = .text n := by
  unfold isText
  split
  · exact ⟨fun _ => ⟨_, rfl⟩, fun _ => rfl⟩
  · rename_i hnot
    exact ⟨nofun, fun ⟨n, hn⟩ => absurd hn (hnot n)⟩

/-- Whether a value is a mapping with texts for keys. -/
def Store.isDictionary (st : Store) (v : Value) : Bool :=
  (st.entries? v).any (·.keys.all Key.isText)

namespace FieldType

mutual

/-- Whether a value is of a type, looked up in a store. -/
def admits (st : Store) : FieldType → Value → Bool
  | text, v => v.text?.isSome
  | integer, v => v.number?.any Number.isWhole
  | decimal, v => v.number?.isSome
  | boolean, v =>
    match v with
    | .bool _ => true
    | _ => false
  | moment, v =>
    match v with
    | .atom a => a.moment?.isSome
    | _ => false
  | anything, _ => true
  | nothing, v =>
    match v with
    | .null => true
    | _ => false
  | dictionary, v => st.isDictionary v
  | literal members, v =>
    match v with
    | .atom a => members.any (·.sameKind a)
    | _ => false
  | list item, v =>
    match st.contents? v with
    | some (.list items) => items.all (item.admits st)
    | _ => false
  | union members, v => someAdmits st members v
  | model _ fields, v => (st.entries? v).any (fieldsAdmit st fields)

/-- Whether a value is of one of some types. -/
def someAdmits (st : Store) : List FieldType → Value → Bool
  | [], _ => false
  | t :: ts, v => t.admits st v || someAdmits st ts v

/-- Whether what is there of some fields is of their types. -/
def fieldsAdmit (st : Store) : List (String × FieldType × Option Value) → Entries Value → Bool
  | [], _ => true
  | (n, t, _) :: fields, es => (es.find? (.text n)).all (t.admits st) && fieldsAdmit st fields es

end

variable {st : Store} {v : Value} {t : FieldType} {ts : List FieldType}

theorem someAdmits_iff : someAdmits st ts v = true ↔ ∃ t ∈ ts, t.admits st v = true := by
  induction ts with
  | nil => simp [someAdmits]
  | cons t ts ih => simp [someAdmits, ih]

theorem fieldsAdmit_iff {fields : List (String × FieldType × Option Value)} {es : Entries Value} :
    fieldsAdmit st fields es = true ↔
      ∀ f ∈ fields, ∀ u, es.find? (.text f.1) = some u → f.2.1.admits st u = true := by
  induction fields with
  | nil => simp [fieldsAdmit]
  | cons f fields ih =>
      obtain ⟨n, t, default⟩ := f
      simp [fieldsAdmit, ih, Option.all_eq_true]

theorem admits_union_iff : (union ts).admits st v = true ↔ ∃ t ∈ ts, t.admits st v = true := by
  rw [admits, someAdmits_iff]

/-! ## Types that are the same -/

/-- Members of literals that are the same are of one kind and equal. -/
theorem sameKind_of_sameLiteral {a b : Atom} (h : a.sameLiteral b = true) :
    a.sameKind b = true := by
  simp only [Atom.sameLiteral, Bool.and_eq_true, decide_eq_true_eq] at h
  obtain ⟨hclass, hequal⟩ := h
  refine Bool.and_eq_true_iff.mpr ⟨?_, hequal⟩
  cases a <;> cases b <;> first | rfl | cases hequal | simp [Atom.className] at hclass

theorem any_sameKind_of_within {as bs : List Atom} (h : literalsWithin as bs = true) {a : Atom}
    (ha : as.any (·.sameKind a) = true) : bs.any (·.sameKind a) = true := by
  obtain ⟨b, hb, hsame⟩ := List.any_eq_true.mp ha
  obtain ⟨d, hd, hlike⟩ := List.any_eq_true.mp (List.all_eq_true.mp h b hb)
  have hback : d.sameKind b = true := Atom.sameKind_comm b d ▸ sameKind_of_sameLiteral hlike
  exact List.any_eq_true.mpr ⟨d, hd, Atom.sameKind_trans hback hsame⟩

mutual

/-- What is of a type is of each that is the same. -/
theorem admits_of_same {a b : FieldType} {v : Value} (h : a.same b = true)
    (hv : a.admits st v = true) : b.admits st v = true := by
  unfold same at h
  split at h
  case h_9 as bs =>
      unfold admits at hv ⊢
      split at hv
      · exact any_sameKind_of_within (Bool.and_eq_true_iff.mp h).1 hv
      · cases hv
  case h_10 a b =>
      unfold admits at hv ⊢
      split at hv
      · exact List.all_eq_true.mpr fun u hu => admits_of_same h (List.all_eq_true.mp hv u hu)
      · cases hv
  case h_11 as bs =>
      unfold admits at hv ⊢
      exact someAdmits_of_allWithin (Bool.and_eq_true_iff.mp h).2 hv
  case h_12 => cases h
  all_goals exact hv

/-- What is of one of some types is of one of others among which each of them is. -/
theorem someAdmits_of_allWithin {as bs : List FieldType} {v : Value} (h : allWithin as bs = true)
    (hv : someAdmits st as v = true) : someAdmits st bs v = true := by
  cases as with
  | nil => cases hv
  | cons a as =>
      simp only [allWithin, Bool.and_eq_true] at h
      simp only [someAdmits, Bool.or_eq_true] at hv
      rcases hv with hv | hv
      · exact someAdmits_of_sameAsSome h.1 hv
      · exact someAdmits_of_allWithin h.2 hv

/-- What is of a type is of one of others among which that is. -/
theorem someAdmits_of_sameAsSome {a : FieldType} {bs : List FieldType} {v : Value}
    (h : sameAsSome a bs = true) (hv : a.admits st v = true) : someAdmits st bs v = true := by
  cases bs with
  | nil => simp [sameAsSome] at h
  | cons b bs =>
      simp only [sameAsSome, Bool.or_eq_true] at h
      simp only [someAdmits, Bool.or_eq_true]
      rcases h with h | h
      · exact .inl (admits_of_same h hv)
      · exact .inr (someAdmits_of_sameAsSome h hv)

end

/-! ## Types put together -/

/-- What is of a type is of one of its members. -/
theorem exists_member (h : t.admits st v = true) : ∃ m ∈ t.members, m.admits st v = true := by
  cases t with
  | union ms => exact admits_union_iff.mp h
  | _ => exact ⟨_, List.mem_singleton_self _, h⟩

/-- Where members that are seen already are left out, one with a property is left if there was
one, provided that what is seen for it has the property too. -/
theorem exists_mem_of_kept {α : Type} {seen : α → List α → Bool} {p : α → Prop}
    (hseen : ∀ a kept, seen a kept = true → p a → ∃ b ∈ kept, p b) {as : List α}
    (h : ∃ a ∈ as, p a) :
    ∃ a ∈ as.foldl (fun kept a => if seen a kept then kept else kept ++ [a]) [], p a := by
  -- what is kept so far may have it already
  suffices hloop : ∀ kept : List α, (∃ a ∈ kept, p a) ∨ (∃ a ∈ as, p a) →
      ∃ a ∈ as.foldl (fun kept a => if seen a kept then kept else kept ++ [a]) kept, p a from
    hloop [] (.inr h)
  clear h
  induction as with
  | nil =>
      rintro kept (h | ⟨a, ha, -⟩)
      · exact h
      · cases ha
  | cons a as ih =>
      intro kept h
      have hnow : p a ∨ (∃ b ∈ kept, p b) →
          ∃ b ∈ if seen a kept then kept else kept ++ [a], p b := by
        intro hnow
        split
        · rename_i hkept
          exact hnow.elim (hseen a kept hkept) id
        · rcases hnow with ha | ⟨b, hb, hp⟩
          · exact ⟨a, List.mem_append_right _ (List.mem_singleton_self a), ha⟩
          · exact ⟨b, List.mem_append_left _ hb, hp⟩
      refine ih _ ?_
      rcases h with h | ⟨b, hb, hp⟩
      · exact .inl (hnow (.inr h))
      · rcases List.mem_cons.mp hb with rfl | hb
        · exact .inl (hnow (.inl hp))
        · exact .inr ⟨b, hb, hp⟩

/-- A union has the values of its members. -/
theorem admits_unionOf (ht : t ∈ ts) (h : t.admits st v = true) :
    (unionOf ts).admits st v = true := by
  obtain ⟨m, hm, hv⟩ := exists_member h
  obtain ⟨d, hd, hv⟩ : ∃ d ∈ distinct (ts.flatMap members), d.admits st v = true :=
    exists_mem_of_kept (fun _ _ hsame hv => someAdmits_iff.mp (someAdmits_of_sameAsSome hsame hv))
      ⟨m, List.mem_flatMap.mpr ⟨t, ht, hm⟩, hv⟩
  unfold unionOf
  split
  · rename_i u hu
    rw [hu] at hd
    rwa [← List.mem_singleton.mp hd]
  · exact admits_union_iff.mpr ⟨d, hd, hv⟩

theorem admits_orNothing (h : t.admits st v = true) : t.orNothing.admits st v = true :=
  admits_unionOf List.mem_cons_self h

theorem admits_orNothing_null (t : FieldType) : t.orNothing.admits st .null = true :=
  admits_unionOf (List.mem_cons_of_mem _ (List.mem_singleton_self nothing)) (by rw [admits])

/-- A literal has what is of the kind of a member and equal to it, however the members were
given. -/
theorem admits_literalOf {as : List Atom} {a b : Atom} (ha : a ∈ as) (h : a.sameKind b = true) :
    (literalOf as).admits st (.atom b) = true := by
  rw [literalOf, admits, List.any_eq_true]
  refine exists_mem_of_kept (fun d kept hseen hd => ?_) ⟨a, ha, h⟩
  obtain ⟨e, he, hlike⟩ := List.any_eq_true.mp hseen
  have hback : e.sameKind d = true := Atom.sameKind_comm d e ▸ sameKind_of_sameLiteral hlike
  exact ⟨e, he, Atom.sameKind_trans hback hd⟩

end FieldType

end Conform
