import Conform.Proofs.Circular

/-!
# Values that say the same in another form

The same data can be written in several forms: a sequence is a list or a tuple, a mapping
may be one that cannot be written to, and the keys of a mapping may stand in any order. A
relation of values **restates** them in a store if related values are the same atom, or
sequences whose items are related, or mappings that have related values at every key, and
if what is shared in the one is shared alike in the other. Values that hold themselves may
be related.

Two runs that are given such values go the same way, side by side in the same world. Their
contexts tell of the same containers, one in each form, and their errors are the same but
for the raw values that they quote.

## Main results

* `Store.Restates` — relations that restate values.
* `Context.Restates` — contexts of two runs that go the same way.
* `Restating.Alike` — works that go the same way, and how they are put together.
-/

namespace Conform

open Traverse

/-! ## Values -/

/-- Two values are the very same object. -/
def Value.Is (u x : Value) : Prop := ∃ i, u.identity? = some i ∧ x.identity? = some i

namespace Store

/-- One layer of values that say the same. -/
inductive SaysAlike (st : Store) (R : Value → Value → Prop) : Value → Value → Prop
  | atom (a : Atom) : SaysAlike st R (.atom a) (.atom a)
  | sequence {u v : Value} {us vs : List Value} (hu : st.items? u = some us)
      (hv : st.items? v = some vs) (h : List.Forall₂ R us vs) : SaysAlike st R u v
  | mapping {u v : Value} {es fs : Entries Value} (hu : st.entries? u = some es)
      (hv : st.entries? v = some fs) (h : ∀ k, Option.Rel R (es.find? k) (fs.find? k)) :
      SaysAlike st R u v

/-- A relation of values that say the same, the very same objects being related to the very
same objects. -/
structure Restates (st : Store) (R : Value → Value → Prop) : Prop where
  atom (a : Atom) : R (.atom a) (.atom a)
  layer {u v : Value} (h : R u v) : st.SaysAlike R u v
  same {u v x y : Value} (h : R u v) (h' : R x y) : u.Is x ↔ v.Is y

variable {st : Store} {R : Value → Value → Prop} {u v : Value}

theorem kindName_of_contents? {c : Contents} (h : st.contents? u = some c) :
    st.kindName u = c.kindName := by
  cases u with
  | atom a => cases h
  | _ => simp only [kindName, h]

theorem kindName_of_items? {items : List Value} (h : st.items? u = some items) :
    st.kindName u = "array" := by
  unfold items? at h
  split at h
  · exact kindName_of_contents? (by assumption)
  · exact kindName_of_contents? (by assumption)
  · cases h

theorem kindName_of_entries? {entries : Entries Value} (h : st.entries? u = some entries) :
    st.kindName u = "object" := by
  unfold entries? at h
  split at h
  · exact kindName_of_contents? (by assumption)
  · cases h

/-- Values that say the same are of the same kind. -/
theorem SaysAlike.kindName_eq (h : st.SaysAlike R u v) : st.kindName v = st.kindName u := by
  cases h with
  | atom a => rfl
  | sequence hu hv => rw [kindName_of_items? hu, kindName_of_items? hv]
  | mapping hu hv => rw [kindName_of_entries? hu, kindName_of_entries? hv]

/-- Values that say the same are both null, or both absent, or neither is. -/
theorem SaysAlike.eq_of_atom {a : Atom} (h : st.SaysAlike R u v) : u = .atom a ↔ v = .atom a := by
  cases h with
  | atom b => rfl
  | sequence hu hv =>
      constructor
      · rintro rfl
        cases hu
      · rintro rfl
        cases hv
  | mapping hu hv =>
      constructor
      · rintro rfl
        cases hu
      · rintro rfl
        cases hv

end Store

/-! ## Errors -/

/-- Two error records are the same but for the raw values that they quote. -/
inductive ErrorRecord.Requoted (Q : Value → Value → Prop) : ErrorRecord → ErrorRecord → Prop
  | same (e : ErrorRecord) : Requoted Q e e
  | values {path : Path} {message : Option String} {code : Code} {ds ds' : List (String × Value)}
      (h : List.Forall₂ (fun d d' => d.1 = d'.1 ∧ Q d.2 d'.2) ds ds') :
      Requoted Q ⟨path, message, code, some (Details.ofValues ds)⟩
        ⟨path, message, code, some (Details.ofValues ds')⟩
  | failures {path : Path} {message : Option String} {code : Code} {name : String}
      {groups groups' : List (List ErrorRecord)}
      (h : List.Forall₂ (List.Forall₂ (Requoted Q)) groups groups') :
      Requoted Q ⟨path, message, code, failuresDetail name groups⟩
        ⟨path, message, code, failuresDetail name groups'⟩

/-- Two violations are the same but for the raw values in their details. -/
structure Violation.Requoted (Q : Value → Value → Prop) (x x' : Violation) : Prop where
  code : x'.code = x.code
  own : x'.own = x.own
  words : x'.words = x.words
  record (path : Path) (message : Option String) :
    ErrorRecord.Requoted Q ⟨path, message, .builtin x.code, x.details⟩
      ⟨path, message, .builtin x.code, x'.details⟩

theorem Violation.Requoted.refl (Q : Value → Value → Prop) (x : Violation) : x.Requoted Q x :=
  ⟨rfl, rfl, rfl, fun _ _ => .same _⟩

/-! ## Contexts -/

/-- Contexts of two runs that are at the same place of values that say the same. -/
structure Context.Restates (R Q : Value → Value → Prop) (c c' : Context) : Prop where
  path : c'.path = c.path
  awaiting : c'.awaiting = c.awaiting
  errors : List.Forall₂ (ErrorRecord.Requoted Q) c.errors c'.errors
  visited {x y : Value} (h : R x y) : c'.hasVisited y = c.hasVisited x

namespace Context

variable {R Q : Value → Value → Prop} {c c' : Context} {u v x y : Value}

theorem hasVisited_mark_iff : (c.mark u).hasVisited x = true ↔ c.hasVisited x = true ∨ u.Is x := by
  simp only [hasVisited_iff, mem_visited_mark, Value.Is]
  constructor
  · rintro ⟨i, hx, hi | hu⟩
    · exact .inl ⟨i, hx, hi⟩
    · exact .inr ⟨i, hu, hx⟩
  · rintro (⟨i, hx, hi⟩ | ⟨i, hu, hx⟩)
    · exact ⟨i, hx, .inl hi⟩
    · exact ⟨i, hx, .inr hu⟩

theorem hasVisited_unmark_iff :
    (c.unmark u).hasVisited x = true ↔ c.hasVisited x = true ∧ ¬ u.Is x := by
  simp only [hasVisited_iff, Value.Is]
  unfold unmark
  cases hu : u.identity? with
  | none => simp
  | some j =>
      simp only [List.mem_filter, bne_iff_ne, ne_eq, Option.some.injEq]
      constructor
      · rintro ⟨i, hx, hi, hij⟩
        refine ⟨⟨i, hx, hi⟩, ?_⟩
        rintro ⟨i', rfl, hx'⟩
        exact hij (Option.some.inj (hx.symm.trans hx'))
      · rintro ⟨⟨i, hx, hi⟩, hother⟩
        exact ⟨i, hx, hi, fun hij => hother ⟨i, hij.symm, hx⟩⟩

namespace Restates

theorem push (h : c.Restates R Q c') (k : Key) : (c.push k).Restates R Q (c'.push k) where
  path := congrArg (· ++ [k]) h.path
  awaiting := h.awaiting
  errors := h.errors
  visited := h.visited

theorem pop (h : c.Restates R Q c') : c.pop.Restates R Q c'.pop where
  path := congrArg List.dropLast h.path
  awaiting := h.awaiting
  errors := h.errors
  visited := h.visited

theorem fork (h : c.Restates R Q c') : c.fork.Restates R Q c'.fork where
  path := h.path
  awaiting := rfl
  errors := .nil
  visited := h.visited

/-- What has been found on forks is only noted. -/
theorem noting (h : c.Restates R Q c') {d d' : Context} (hd : d.Restates R Q d') :
    Context.Restates R Q { c with awaiting := c.awaiting || d.awaiting }
      { c' with awaiting := c'.awaiting || d'.awaiting } where
  path := h.path
  awaiting := by simp [h.awaiting, hd.awaiting]
  errors := h.errors
  visited := h.visited

theorem addError (h : c.Restates R Q c') {e e' : ErrorRecord} (he : e.Requoted Q e') :
    (c.addError e).Restates R Q (c'.addError e') where
  path := h.path
  awaiting := h.awaiting
  errors := List.rel_append h.errors (.cons he .nil)
  visited := h.visited

theorem markAwaiting (h : c.Restates R Q c') : c.markAwaiting.Restates R Q c'.markAwaiting where
  path := h.path
  awaiting := rfl
  errors := h.errors
  visited := h.visited

theorem mark {st : Store} (hR : st.Restates R) (h : c.Restates R Q c') (huv : R u v) :
    (c.mark u).Restates R Q (c'.mark v) where
  path := by simpa using h.path
  awaiting := by simpa using h.awaiting
  errors := by simpa using h.errors
  visited {x y} hxy := by
    rw [Bool.eq_iff_iff, hasVisited_mark_iff, hasVisited_mark_iff, h.visited hxy, hR.same huv hxy]

theorem unmark {st : Store} (hR : st.Restates R) (h : c.Restates R Q c') (huv : R u v) :
    (c.unmark u).Restates R Q (c'.unmark v) where
  path := by simpa using h.path
  awaiting := by simpa using h.awaiting
  errors := by simpa using h.errors
  visited {x y} hxy := by
    rw [Bool.eq_iff_iff, hasVisited_unmark_iff, hasVisited_unmark_iff, h.visited hxy,
      hR.same huv hxy]

/-- In a copy nothing is being looked into. -/
theorem afresh (h : c.Restates R Q c') (R' : Value → Value → Prop) :
    c.afresh.Restates R' Q c'.afresh where
  path := h.path
  awaiting := h.awaiting
  errors := h.errors
  visited {x y} _ := by
    have hnone : ∀ (d : Context) z, d.afresh.hasVisited z = false := by
      intro d z
      cases hz : z.identity? <;> simp [hasVisited, Context.afresh, hz]
    rw [hnone, hnone]

theorem resume (h : c.Restates R Q c') {R' : Value → Value → Prop} {d d' : Context}
    (hd : d.Restates R' Q d') : (c.resume d).Restates R Q (c'.resume d') where
  path := hd.path
  awaiting := hd.awaiting
  errors := hd.errors
  visited := h.visited

end Restates

end Context

/-- No template is in force. -/
def Setting.Untemplated {σ : Type} (env : Setting σ) : Prop :=
  ∀ code, env.catalog.find? env.scope code = none

namespace Restating

/-! ## Works that go the same way -/

section Works

variable {σ : Type} (I : World σ → Prop) (Q R : Value → Value → Prop)

/-- Two runs end the same way: by values that are alike or by the same fault, in the same
world, of which an invariant holds. -/
inductive EndAlike {α β : Type} (A : α → β → Prop) :
    Except Fault α × Context × World σ → Except Fault β × Context × World σ → Prop
  | value {a : α} {b : β} {c c' : Context} {w : World σ} (h : A a b) (hc : c.Restates R Q c')
      (hw : I w) : EndAlike A (.ok a, c, w) (.ok b, c', w)
  | fault {f : Fault} {c c' : Context} {w : World σ} (hc : c.Restates R Q c') (hw : I w) :
      EndAlike A (.error f, c, w) (.error f, c', w)

/-- Works that go the same way from the same world. -/
def Alike {α β : Type} (A : α → β → Prop) (e : Engine σ α) (e' : Engine σ β) : Prop :=
  ∀ c c' w, Context.Restates R Q c c' → I w → EndAlike I Q R A (e.runIn c w) (e'.runIn c' w)

variable {I Q R} {env : Setting σ} {α β γ δ : Type} {A : α → β → Prop} {B : γ → δ → Prop}
  {e : Engine σ α} {e' : Engine σ β}

namespace Alike

protected theorem pure {a : α} {b : β} (h : A a b) :
    Alike I Q R A (Pure.pure a) (Pure.pure b) :=
  fun _ _ _ hc hw => .value h hc hw

protected theorem throw (A : α → β → Prop) (f : Fault) :
    Alike I Q R A (MonadExcept.throw f) (MonadExcept.throw f) :=
  fun _ _ _ hc hw => .fault hc hw

theorem bind {k : α → Engine σ γ} {k' : β → Engine σ δ} (h : Alike I Q R A e e')
    (hk : ∀ a b, A a b → Alike I Q R B (k a) (k' b)) : Alike I Q R B (e >>= k) (e' >>= k') := by
  intro c c' w hc hw
  have hrun := h c c' w hc hw
  rw [Engine.runIn_bind, Engine.runIn_bind]
  generalize e.runIn c w = out, e'.runIn c' w = out' at hrun ⊢
  cases hrun with
  | value hab hc₁ hw₁ => exact hk _ _ hab _ _ _ hc₁ hw₁
  | fault hc₁ hw₁ => exact .fault hc₁ hw₁

/-- Works that go on alike on equal values. -/
theorem bind_eq {k : α → Engine σ γ} {k' : α → Engine σ δ} {e e' : Engine σ α}
    (h : Alike I Q R (· = ·) e e') (hk : ∀ a, Alike I Q R B (k a) (k' a)) :
    Alike I Q R B (e >>= k) (e' >>= k') :=
  h.bind (by rintro a _ rfl; exact hk a)

theorem within (k : Key) (h : Alike I Q R A e e') :
    Alike I Q R A (Engine.within k e) (Engine.within k e') := by
  intro c c' w hc hw
  have hrun := h _ _ w (hc.push k) hw
  rw [Engine.runIn_within, Engine.runIn_within]
  generalize e.runIn (c.push k) w = out, e'.runIn (c'.push k) w = out' at hrun ⊢
  cases hrun with
  | value hab hc₁ hw₁ => exact .value hab hc₁.pop hw₁
  | fault hc₁ hw₁ => exact .fault hc₁.pop hw₁

/-- Containers that say the same are both looked into, or neither is because it is being
looked into. -/
theorem enter {st : Store} (hR : st.Restates R) {u v : Value} (huv : R u v)
    {refused : Engine σ γ} {refused' : Engine σ δ} {k : α → Engine σ γ} {k' : β → Engine σ δ}
    (hrefused : Alike I Q R B refused refused') (h : Alike I Q R A e e')
    (hk : ∀ a b, A a b → Alike I Q R B (k a) (k' b)) :
    Alike I Q R B
      (Engine.context >>= fun c => if c.hasVisited u then refused else Engine.lookingInto u e >>= k)
      (Engine.context >>= fun c =>
        if c.hasVisited v then refused' else Engine.lookingInto v e' >>= k') := by
  have hinside : Alike I Q R A (Engine.lookingInto u e) (Engine.lookingInto v e') := by
    intro c c' w hc hw
    have hrun := h _ _ w (hc.mark hR huv) hw
    rw [Engine.runIn_lookingInto, Engine.runIn_lookingInto]
    generalize e.runIn (c.mark u) w = out, e'.runIn (c'.mark v) w = out' at hrun ⊢
    cases hrun with
    | value hab hc₁ hw₁ => exact .value hab (hc₁.unmark hR huv) hw₁
    | fault hc₁ hw₁ => exact .fault (hc₁.unmark hR huv) hw₁
  intro c c' w hc hw
  rw [Engine.runIn_bind_of_ok _ (Engine.runIn_context c w),
    Engine.runIn_bind_of_ok _ (Engine.runIn_context c' w), hc.visited huv]
  cases c.hasVisited u with
  | true => exact hrefused c c' w hc hw
  | false => exact hinside.bind hk c c' w hc hw

/-- On copies both works are on values that say the same in another sense. -/
theorem onCopy {R' : Value → Value → Prop} (h : Alike I Q R' A e e') :
    Alike I Q R A (Engine.onCopy e) (Engine.onCopy e') := by
  intro c c' w hc hw
  have hrun := h _ _ w (hc.afresh R') hw
  rw [Engine.runIn_onCopy, Engine.runIn_onCopy]
  generalize e.runIn c.afresh w = out, e'.runIn c'.afresh w = out' at hrun ⊢
  cases hrun with
  | value hab hc₁ hw₁ => exact .value hab (hc.resume hc₁) hw₁
  | fault hc₁ hw₁ => exact .fault (hc.resume hc₁) hw₁

theorem speculate (h : Alike I Q R A e e') :
    Alike I Q R (fun p q => A p.1 q.1 ∧ List.Forall₂ (ErrorRecord.Requoted Q) p.2 q.2)
      (Engine.speculate e) (Engine.speculate e') := by
  intro c c' w hc hw
  have hrun := h _ _ w hc.fork hw
  rw [Engine.runIn_speculate, Engine.runIn_speculate]
  generalize e.runIn c.fork w = out, e'.runIn c'.fork w = out' at hrun ⊢
  cases hrun with
  | value hab hc₁ hw₁ => exact .value ⟨hab, hc₁.errors⟩ (hc.noting hc₁) hw₁
  | fault hc₁ hw₁ => exact .fault hc hw₁

/-- An act that keeps the invariant goes the same way as itself. -/
theorem ofAct {act : Act σ α} (h : act.Keeps I) :
    Alike I Q R (· = ·) (Engine.ofAct act) (Engine.ofAct act) := by
  intro c c' w hc hw
  have hkept := h w hw
  rw [Engine.runIn_ofAct, Engine.runIn_ofAct]
  generalize act.runIn w = out at hkept ⊢
  rcases out with ⟨f | a, w₁⟩
  · exact .fault hc hkept
  · exact .value rfl hc hkept

theorem addWorded (code : Code) (words : Option String) {details details' : Option Details}
    (h : ∀ p, ErrorRecord.Requoted Q ⟨p, words, code, details⟩ ⟨p, words, code, details'⟩) :
    Alike I Q R (· = ·) (Engine.addWorded code words details : Engine σ Unit)
      (Engine.addWorded code words details') := by
  intro c c' w hc hw
  rw [Engine.runIn_addWorded, Engine.runIn_addWorded]
  refine .value rfl (hc.addError ?_) hw
  rw [hc.path]
  exact h c.path

end Alike

end Works

end Restating

end Conform
