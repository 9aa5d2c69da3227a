import Conform.Proofs.Descent
import Conform.Proofs.Provenance

/-!
# Circular references

A container is looked into unless it is being looked into already; then a
circular reference is reported at its place, and the check does not go further
down there. A context keeps a list of the containers that are being looked into.
It must hold the containers on the way to the place of the context, and no
others, whichever fields, elements, options and members were checked before and
however these checks ended. A copy of a default starts a way of its own.

So what is reported depends on the input alone: a container is reported exactly
at the paths on which it stands further up as well. A container that is merely
met several times is not.

## Main results

* `Call.recurs_iff_hasVisited` — the containers that are being looked into are
  those on the way.
* `Call.hasVisited_iff_reported` — a circular reference is reported at the place of a
  container exactly if it is met on the way.
* `Call.recurs_iff_at?` — that is to be seen from the input.
* `circular_iff_recurs` — circular references are reported exactly where they
  occur, also in the failures of attempts.
-/

namespace Conform

open Traverse

/-! ## Containers that are being looked into -/

theorem Value.eq_of_identity? {x u : Value} {i : Identity} (hx : x.identity? = some i)
    (hu : u.identity? = some i) : x = u := by
  cases x <;> cases hx <;> cases u <;> cases hu <;> rfl

namespace Context

variable {c : Context} {v : Value} {i : Identity}

theorem hasVisited_iff : c.hasVisited v = true ↔ ∃ i, v.identity? = some i ∧ i ∈ c.visited := by
  simp [hasVisited, Option.any_eq_true]

theorem mem_visited_mark : i ∈ (c.mark v).visited ↔ i ∈ c.visited ∨ v.identity? = some i := by
  unfold mark
  cases hv : v.identity? with
  | none => simp
  | some j =>
      by_cases hj : j ∈ c.visited
      · have hin : j = i → i ∈ c.visited := fun h => h ▸ hj
        simpa [hj] using hin
      · simp [hj, or_comm, eq_comm]

end Context

/-! ## Circles in the input -/

namespace Store

variable {st : Store} {v : Value} {p : Path}

/-- What stands at the end of a path stands further up on it as well. -/
def Recurs (st : Store) (v : Value) (p : Path) : Prop :=
  ∃ q k r x u i, p = q ++ k :: r ∧ st.at? v q = some x ∧ st.at? v p = some u ∧
    x.identity? = some i ∧ u.identity? = some i

/-- However much is shared, nothing stands above itself without a cycle. -/
theorem Acyclic.not_recurs (h : st.Acyclic v) : ¬ st.Recurs v p := by
  rintro ⟨q, k, r, x, u, i, rfl, hx, hu, hxi, hui⟩
  obtain rfl := Value.eq_of_identity? hxi hui
  have hbelow : st.at? x (k :: r) = some x := by
    rwa [at?_append, hx] at hu
  exact h x (reaches_of_at? hx) (transGen_of_at? (by simp) hbelow)

end Store

namespace Call

variable {σ : Type} {env : Setting σ} {mode : Mode} {f₀ f g : Call σ} {i : Identity}

/-! ## The way to a call -/

theorem GoesOn.mem_visited_iff (h : GoesOn env mode f g) :
    i ∈ g.context.visited ↔
      i ∈ f.context.visited ∨ f.enters = true ∧ f.value.identity? = some i := by
  cases h.2.step with
  | down henters _ hvisited _ =>
      rw [hvisited, Context.mem_visited_mark]
      simp [henters]
  | level hmeets _ _ hvisited _ =>
      rw [hvisited]
      simp [enters_eq, hmeets]
  | copy _ hcopies _ => simp [h.1] at hcopies

theorem Makes.path_eq (h : Makes env mode f g) :
    ∃ q, g.context.path = f.context.path ++ q ∧ (f.enters = true → q ≠ []) := by
  cases h.step with
  | @down k _ hpath _ _ => exact ⟨[k], hpath, fun _ => by simp⟩
  | level hmeets _ hpath _ _ =>
      refine ⟨[], by simpa using hpath, fun henters => ?_⟩
      simp [enters_eq, hmeets] at henters
  | copy hmeets _ hcontext =>
      refine ⟨[], by simp [hcontext, Context.afresh], fun henters => ?_⟩
      simp [enters_eq, hmeets] at henters

theorem path_of_reaches (h : Reaches env mode f g) :
    ∃ q, g.context.path = f.context.path ++ q := by
  induction h with
  | refl => exact ⟨[], by simp⟩
  | tail _ hmakes ih =>
      obtain ⟨q, hq⟩ := ih
      obtain ⟨r, hr, -⟩ := hmakes.path_eq
      exact ⟨q ++ r, by rw [hr, hq, List.append_assoc]⟩

/-- Whoever looks into a container is above all the calls that follow. -/
theorem path_of_transGen (henters : f.enters = true)
    (h : Relation.TransGen (Makes env mode) f g) :
    ∃ q, q ≠ [] ∧ g.context.path = f.context.path ++ q := by
  obtain ⟨f₁, hmakes, hreaches⟩ := Relation.TransGen.head'_iff.mp h
  obtain ⟨q, hq, hne⟩ := hmakes.path_eq
  obtain ⟨r, hr⟩ := path_of_reaches hreaches
  refine ⟨q ++ r, ?_, by rw [hr, hq, List.append_assoc]⟩
  have hq := hne henters
  simp [hq]

/-- The container of a call stands further up on the way to it from another,
where it is being looked into. What is copied on the way is a new value, with
containers of its own. -/
def Recurs (env : Setting σ) (mode : Mode) (f f₀ : Call σ) : Prop :=
  ∃ g q i, Reaches env mode f₀ g ∧ Relation.TransGen (GoesOn env mode) g f ∧ g.enters = true ∧
    f.context.path = g.context.path ++ q ∧ q ≠ [] ∧ g.value.identity? = some i ∧
    f.value.identity? = some i

/-- What is being looked into at a call was so at the start, or was met on the
way. -/
theorem exists_of_mem_visited (hreaches : Reaches env mode f₀ f) (h : i ∈ f.context.visited) :
    i ∈ f₀.context.visited ∨ ∃ g, Reaches env mode f₀ g ∧
      Relation.TransGen (GoesOn env mode) g f ∧ g.enters = true ∧ g.value.identity? = some i := by
  induction hreaches with
  | refl => exact .inl h
  | @tail f f' hreaches hmakes ih =>
      cases hcopies : f.copies with
      | true =>
          rw [(hmakes.of_copies hcopies).1] at h
          cases h
      | false =>
          have hgoes : GoesOn env mode f f' := ⟨hcopies, hmakes⟩
          rcases hgoes.mem_visited_iff.mp h with h | ⟨henters, hi⟩
          · rcases ih h with h | ⟨g, hg, hbelow, henters, hi⟩
            · exact .inl h
            · exact .inr ⟨g, hg, hbelow.tail hgoes, henters, hi⟩
          · exact .inr ⟨f, hreaches, .single hgoes, henters, hi⟩

/-- What is met on the way is being looked into. -/
theorem mem_visited_of_transGen (henters : g.enters = true) (hi : g.value.identity? = some i)
    (h : Relation.TransGen (GoesOn env mode) g f) : i ∈ f.context.visited := by
  induction h with
  | single hgoes => exact hgoes.mem_visited_iff.mpr (.inr ⟨henters, hi⟩)
  | tail _ hgoes ih => exact hgoes.mem_visited_iff.mpr (.inl ih)

/-- From a fresh context, the containers that are being looked into are those on
the way. -/
theorem recurs_iff_hasVisited (hroot : f₀.context.visited = [])
    (hreaches : Reaches env mode f₀ f) :
    f.Recurs env mode f₀ ↔ f.context.hasVisited f.value = true := by
  rw [Context.hasVisited_iff]
  constructor
  · rintro ⟨g, q, i, -, hbelow, henters, -, -, hgi, hfi⟩
    exact ⟨i, hfi, mem_visited_of_transGen henters hgi hbelow⟩
  · rintro ⟨i, hfi, hin⟩
    rcases exists_of_mem_visited hreaches hin with h | ⟨g, hg, hbelow, henters, hgi⟩
    · rw [hroot] at h
      cases h
    · have hmade := Relation.TransGen.mono (fun _ _ h => And.right h) _ _ hbelow
      obtain ⟨q, hq, hpath⟩ := path_of_transGen henters hmade
      exact ⟨g, q, i, hg, hbelow, henters, hpath, hq, hgi, hfi⟩

/-- A default that stands in a copy of itself is copied again. -/
example :
    let default : Value := .shared 0 false
    let inner : Schema := .withDefault (.object [] .strip) default
    ((check idleHost .immediate 4 (.withDefault (.object [(.text "inner", inner)] .strip) default)
      .missing).runIn {} { store := ⟨#[.mapping false []]⟩, host := () }).2.1.errors = [] := rfl

/-! ## What is reported -/

/-- Where a container is being looked into already, that is reported, and nothing
else is done. -/
theorem run_of_hasVisited (hmeets : f.meets = true)
    (hvisited : f.context.hasVisited f.value = true) (hdepth : 0 < f.depth) :
    f.run env mode = (Engine.refuse env circular).runIn f.context f.world := by
  obtain ⟨_ | depth, s, v, c, w⟩ := f
  · cases hdepth
  · have hvisited : c.hasVisited v = true := hvisited
    cases s with
    | object fields unknown =>
        have hobject : (w.store.entries? v).isNone = false := by simpa [meets] using hmeets
        show (checkObject env _ _ fields unknown v).runIn c w = _
        simp only [runIn_checkObject, hobject, hvisited, Bool.false_eq_true, if_false, if_true]
    | array element bounds =>
        have harray : (w.store.items? v).isNone = false := by simpa [meets] using hmeets
        show (checkArray env depth _ element bounds v).runIn c w = _
        simp only [runIn_checkArray, harray, hvisited, Bool.false_eq_true, if_false, if_true]
    | _ => cases hmeets

theorem not_makes_of_hasVisited (hmeets : f.meets = true)
    (hvisited : f.context.hasVisited f.value = true) : ¬ Makes env mode f g := by
  intro hmakes
  cases hmakes.step with
  | down henters _ _ _ => simp [enters_eq, hvisited] at henters
  | level hnot _ _ _ _ => simp [hmeets] at hnot
  | copy hnot _ _ => simp [hmeets] at hnot

/-- Only containers are looked into, and nothing is worded about them by a
callback. -/
theorem not_words_of_meets {code : Code} (hmeets : f.meets = true) : ¬ f.Words code := by
  intro hwords
  cases hwords <;> cases hmeets

/-- A call that meets a container tells of a circular reference at its place
exactly if the container is being looked into. Calls further down are at other
places. -/
theorem hasVisited_iff_reported {r : Value} {c' : Context} {w' : World σ}
    (hmeets : f.meets = true) (h : f.run env mode = (.ok r, c', w')) :
    ∃ es, c'.errors = f.context.errors ++ es ∧
      (f.context.hasVisited f.value = true ↔
        ∃ e ∈ es, e.code = .builtin .circularReference ∧ e.path = f.context.path) := by
  obtain ⟨es, hes, htold⟩ := tells_of_run h
  refine ⟨es, hes, ?_⟩
  constructor
  · intro hvisited
    have hdepth : 0 < f.depth := by
      by_contra hzero
      obtain ⟨_ | depth, s, v, c, w⟩ := f
      · cases h
      · simp at hzero
    rw [run_of_hasVisited hmeets hvisited hdepth] at h
    obtain ⟨-, message, hc', -⟩ := Engine.eq_addError_of_runIn_refuse h
    have hone : f.context.errors ++ [⟨f.context.path, message, .builtin .circularReference, none⟩] =
        f.context.errors ++ es := by
      rw [← hes, hc']
      rfl
    rw [← List.append_cancel_left hone]
    exact ⟨_, List.mem_singleton_self _, rfl, rfl⟩
  · rintro ⟨e, he, hcode, hpath⟩
    obtain ⟨g, hreaches, htells⟩ := htold e he e .refl
    obtain ⟨hplace, -, hwho⟩ := htells.circular hcode
    rcases Relation.reflTransGen_iff_eq_or_transGen.mp hreaches with rfl | hbelow
    · rcases hwho with ⟨-, hvisited⟩ | hwords
      · exact hvisited
      · exact absurd hwords (not_words_of_meets hmeets)
    · -- whoever is further down has a longer path
      by_contra hfresh
      rw [Bool.not_eq_true] at hfresh
      have henters : f.enters = true := by simp [enters_eq, hmeets, hfresh]
      obtain ⟨q, hq, hlonger⟩ := path_of_transGen henters hbelow
      rw [← hplace, hpath] at hlonger
      exact hq (List.append_right_eq_self.mp hlonger.symm)

/-- A callback gives an error the code: one that refines a schema, or one of a
rule. -/
def Coded (env : Setting σ) (mode : Mode) (f₀ : Call σ) (code : Code) : Prop :=
  (∃ f, Reaches env mode f₀ f ∧ f.Words code) ∨
    ∃ rule ∈ env.rules, Validate.ruleCode rule = code

/-! ## What is to be seen from the input -/

/-- At each place further up there is a call that looks into a container. -/
theorem exists_enters_of_path (hroot : f₀.context.path = []) (hfree : DefaultFree env mode f₀)
    (hreaches : Reaches env mode f₀ f) {q r : Path} {k : Key} (h : f.context.path = q ++ k :: r) :
    ∃ g, Reaches env mode f₀ g ∧ Relation.TransGen (GoesOn env mode) g f ∧ g.enters = true ∧
      g.context.path = q := by
  induction hreaches generalizing r k with
  | refl => simp [hroot] at h
  | @tail f f' hreaches hmakes ih =>
      have hgoes : GoesOn env mode f f' := ⟨hfree.copies_eq hreaches, hmakes⟩
      cases hmakes.step with
      | level _ _ hpath _ _ =>
          obtain ⟨g, hg, hbelow, henters, hq⟩ := ih (hpath ▸ h)
          exact ⟨g, hg, hbelow.tail hgoes, henters, hq⟩
      | copy _ hcopies _ => simp [hgoes.1] at hcopies
      | @down l henters hpath _ _ =>
          rw [hpath] at h
          rcases List.eq_nil_or_concat r with rfl | ⟨r, k', rfl⟩
          · have hq : f.context.path = q := (List.append_inj' h rfl).1
            exact ⟨f, hreaches, .single hgoes, henters, hq⟩
          · have hends : f.context.path ++ [l] = (q ++ k :: r) ++ [k'] := by simpa using h
            have hshorter : f.context.path = q ++ k :: r := (List.append_inj' hends rfl).1
            obtain ⟨g, hg, hbelow, henters, hq⟩ := ih hshorter
            exact ⟨g, hg, hbelow.tail hgoes, henters, hq⟩

section Input

variable {st : Store} {v : Value} (hkeeps : env.Keeps (st.Unchanged v))
  (hworld : st.Unchanged v f₀.world) (hvalue : f₀.value = v) (hpath : f₀.context.path = [])
  (hfree : DefaultFree env mode f₀)

include hkeeps hworld hvalue hpath hfree

/-- A container is met where it stands in the input. -/
theorem at?_of_meets (hreaches : Reaches env mode f₀ f) (hmeets : f.meets = true) :
    st.at? v f.context.path = some f.value := by
  rcases at?_of_reaches hkeeps hworld hvalue hpath hfree hreaches with hat | ⟨-, hmissing⟩
  · exact hat
  · obtain ⟨depth, s, u, c, w⟩ := f
    cases hmissing
    cases s <;> cases hmeets

/-- With a host that leaves the containers of the input alone, a container is
met on the way to it exactly if it stands further up on its path in the input. -/
theorem recurs_iff_at? (hreaches : Reaches env mode f₀ f) (hmeets : f.meets = true) :
    f.Recurs env mode f₀ ↔ st.Recurs v f.context.path := by
  have hat := at?_of_meets hkeeps hworld hvalue hpath hfree hreaches hmeets
  have habove : ∀ {g : Call σ}, Reaches env mode f₀ g → g.enters = true →
      st.at? v g.context.path = some g.value := by
    intro g hg henters
    rw [enters_eq, Bool.and_eq_true] at henters
    exact at?_of_meets hkeeps hworld hvalue hpath hfree hg henters.1
  constructor
  · rintro ⟨g, q, i, hg, -, henters, hq, hne, hgi, hfi⟩
    obtain ⟨k, r, rfl⟩ := List.exists_cons_of_ne_nil hne
    exact ⟨g.context.path, k, r, g.value, f.value, i, hq, habove hg henters, hat, hgi, hfi⟩
  · rintro ⟨q, k, r, x, u, i, hq, hx, hu, hxi, hui⟩
    obtain ⟨g, hg, hbelow, henters, rfl⟩ := exists_enters_of_path hpath hfree hreaches hq
    have hgx : g.value = x := Option.some.inj ((habove hg henters).symm.trans hx)
    have hfu : f.value = u := Option.some.inj (hat.symm.trans hu)
    exact ⟨g, k :: r, i, hg, hbelow, henters, hq, by simp, hgx ▸ hxi, hfu ▸ hui⟩

end Input

end Call

/-! ## Whole checks -/

/-- Circular references are reported exactly where they occur. Whenever a check
from a fresh context comes to a container with an object or an array schema, in
the context of the check or on a fork of it:

* it does not look into the container exactly if it is looking into it already
  further up on the way; then it makes no call and reports a circular reference,
  and nothing else; and only then is there such an error at its place,
* every such error in the refusal of the value, also in the failures of attempts,
  however deep, is that of a call that comes to such a container, unless a
  callback was given the code.

If the host leaves the containers of the value alone and no default stands in for
a value, the container is the one that stands at the path in the input, and it is
looked into further up exactly if it stands there on the path as well. So there is
no such error for a value without cycles. -/
theorem circular_iff_recurs {σ : Type} (env : Setting σ) (mode : Mode) (depth : Nat) (s : Schema)
    (v : Value) (w : World σ) :
    (∀ f, Call.Reaches env mode ⟨depth, s, v, {}, w⟩ f → f.meets = true →
      (f.enters = false ↔ f.Recurs env mode ⟨depth, s, v, {}, w⟩) ∧
      (f.Recurs env mode ⟨depth, s, v, {}, w⟩ → (∀ g, ¬ Call.Makes env mode f g) ∧
        (0 < f.depth →
          f.run env mode = (Engine.refuse env circular).runIn f.context f.world)) ∧
      ∀ r c' w', f.run env mode = (.ok r, c', w') → ∃ es, c'.errors = f.context.errors ++ es ∧
        (f.Recurs env mode ⟨depth, s, v, {}, w⟩ ↔
          ∃ e ∈ es, e.code = .builtin .circularReference ∧ e.path = f.context.path)) ∧
    (∀ x, Validate.Found env mode depth s v w x → x.code = .builtin .circularReference →
      (x.details = none ∧ ∃ f, Call.Reaches env mode ⟨depth, s, v, {}, w⟩ f ∧ f.meets = true ∧
        f.Recurs env mode ⟨depth, s, v, {}, w⟩ ∧ x.path = f.context.path) ∨
      Call.Coded env mode ⟨depth, s, v, {}, w⟩ (.builtin .circularReference)) ∧
    (env.Keeps (w.store.Unchanged v) → Call.DefaultFree env mode ⟨depth, s, v, {}, w⟩ →
      (∀ f, Call.Reaches env mode ⟨depth, s, v, {}, w⟩ f → f.meets = true →
        w.store.at? v f.context.path = some f.value ∧
        (f.Recurs env mode ⟨depth, s, v, {}, w⟩ ↔ w.store.Recurs v f.context.path)) ∧
      (w.store.Acyclic v → ∀ x, Validate.Found env mode depth s v w x →
        x.code = .builtin .circularReference →
          Call.Coded env mode ⟨depth, s, v, {}, w⟩ (.builtin .circularReference))) := by
  have hrecurs : ∀ f, Call.Reaches env mode ⟨depth, s, v, {}, w⟩ f →
      (f.Recurs env mode ⟨depth, s, v, {}, w⟩ ↔ f.context.hasVisited f.value = true) :=
    fun f hf => Call.recurs_iff_hasVisited rfl hf
  have hfound : ∀ x, Validate.Found env mode depth s v w x →
      x.code = .builtin .circularReference →
      (x.details = none ∧ ∃ f, Call.Reaches env mode ⟨depth, s, v, {}, w⟩ f ∧ f.meets = true ∧
        f.Recurs env mode ⟨depth, s, v, {}, w⟩ ∧ x.path = f.context.path) ∨
      Call.Coded env mode ⟨depth, s, v, {}, w⟩ (.builtin .circularReference) := by
    intro x hx hcode
    rcases hx.told with ⟨f, hf, htells⟩ | ⟨rule, hrule, hsame⟩
    · obtain ⟨hpath, hdetails, ⟨hmeets, hvisited⟩ | hwords⟩ := htells.circular hcode
      · exact .inl ⟨hdetails, f, hf, hmeets, (hrecurs f hf).mpr hvisited, hpath⟩
      · exact .inr (.inl ⟨f, hf, hwords⟩)
    · exact .inr (.inr ⟨rule, hrule, hsame.symm.trans hcode⟩)
  refine ⟨fun f hf hmeets => ?_, hfound, fun hkeeps hfree => ?_⟩
  · rw [hrecurs f hf]
    refine ⟨?_, fun hvisited => ⟨?_, ?_⟩, fun r c' w' hrun => ?_⟩
    · simp [Call.enters_eq, hmeets]
    · exact fun g => Call.not_makes_of_hasVisited hmeets hvisited
    · exact Call.run_of_hasVisited hmeets hvisited
    · exact Call.hasVisited_iff_reported hmeets hrun
  · have hworld : w.store.Unchanged v w := Store.unchanged_self v w
    have hinput : ∀ f, Call.Reaches env mode ⟨depth, s, v, {}, w⟩ f → f.meets = true →
        (f.Recurs env mode ⟨depth, s, v, {}, w⟩ ↔ w.store.Recurs v f.context.path) :=
      fun f hf hmeets => Call.recurs_iff_at? hkeeps hworld rfl rfl hfree hf hmeets
    constructor
    · intro f hf hmeets
      exact ⟨Call.at?_of_meets hkeeps hworld rfl rfl hfree hf hmeets, hinput f hf hmeets⟩
    · intro hacyclic x hx hcode
      rcases hfound x hx hcode with ⟨-, f, hf, hmeets, hagain, -⟩ | hcoded
      · exact absurd ((hinput f hf hmeets).mp hagain) hacyclic.not_recurs
      · exact hcoded

/-- A list that holds itself and twice an empty list, and a list that holds that
twice. -/
def selfAndTwins : World Unit where
  store := ⟨#[.list [.shared 0 false, .shared 1 false, .shared 1 false], .list [],
    .list [.shared 1 false, .shared 1 false]]⟩
  host := ()

/-- Lists of lists or texts. -/
def listsOrTexts : Schema := .array (.union (.array .any {}) [.string {}]) {}

theorem schema_of_reaches_listsOrTexts {v : Value} {g : Call Unit}
    (h : Call.Reaches idleHost .immediate ⟨4, listsOrTexts, v, {}, selfAndTwins⟩ g) :
    g.schema ∈ [listsOrTexts, .union (.array .any {}) [.string {}], .array .any {}, .any,
      .string {}] := by
  refine Call.schema_of_reaches_idle rfl (fun s t hs hpart => ?_) List.mem_cons_self h
  simp only [List.mem_cons, List.not_mem_nil, or_false] at hs
  rcases hs with rfl | rfl | rfl | rfl | rfl <;> rcases hpart with hpart | hpart <;> cases hpart
  · simp
  · rename_i hmem
    rcases List.mem_cons.mp hmem with rfl | hmem
    · simp
    · simp [List.mem_singleton.mp hmem]
  · simp

theorem acyclic_twins : selfAndTwins.store.Acyclic (.shared 2 false) := by
  have hheld : ∀ u, selfAndTwins.store.Holds (.shared 2 false) u → u = .shared 1 false := by
    rintro u ⟨_, hc, hu⟩
    cases hc
    have hu : u ∈ [Value.shared 1 false, .shared 1 false] := hu
    simpa using hu
  have hempty : ∀ u, ¬ selfAndTwins.store.Holds (.shared 1 false) u := by
    rintro u ⟨_, hc, hu⟩
    cases hc
    cases hu
  intro u hu hcycle
  rcases hu.cases_head with rfl | ⟨x, hx, hrest⟩
  · obtain ⟨x, hx, hback⟩ := Relation.TransGen.head'_iff.mp hcycle
    obtain rfl := hheld x hx
    rcases hback.cases_head with h | ⟨y, hy, -⟩
    · cases h
    · exact hempty y hy
  · obtain rfl := hheld x hx
    exact Store.acyclic_of_holds_nothing hempty u hrest hcycle

theorem found_selfAndTwins :
    Validate.Found idleHost .immediate 4 listsOrTexts (.shared 0 false) selfAndTwins
      ⟨[.index 0], some "Circular reference detected", .builtin .circularReference, none⟩ := by
  refine ⟨_, ⟨.safeParse, _, rfl⟩, _, List.mem_singleton_self _, .single ?_⟩
  exact ErrorRecord.gives_failuresDetail_iff.mpr ⟨_, List.mem_cons_self, List.mem_cons_self⟩

/-- The list that holds itself is reported at its first place, in the failures of
the options. The empty list that stands twice beside it is not. -/
theorem circular_iff_recurs_selfAndTwins :
    (∃ f, Call.Reaches idleHost .immediate
        ⟨4, listsOrTexts, .shared 0 false, {}, selfAndTwins⟩ f ∧
      f.Recurs idleHost .immediate ⟨4, listsOrTexts, .shared 0 false, {}, selfAndTwins⟩ ∧
      f.context.path = [.index 0] ∧ f.enters = false ∧
      selfAndTwins.store.Recurs (.shared 0 false) [.index 0]) ∧
    ∀ x, Validate.Found idleHost .immediate 4 listsOrTexts (.shared 2 false) selfAndTwins x →
      x.code ≠ .builtin .circularReference := by
  have hfree : ∀ v, Call.DefaultFree idleHost .immediate
      ⟨4, listsOrTexts, v, {}, selfAndTwins⟩ := by
    intro v g hg inner default hschema
    have hmem := schema_of_reaches_listsOrTexts hg
    rw [hschema] at hmem
    simp [listsOrTexts] at hmem
  have huncoded : ∀ v code, ¬ Call.Coded idleHost .immediate
      ⟨4, listsOrTexts, v, {}, selfAndTwins⟩ code := by
    rintro v code (⟨g, hg, hwords⟩ | ⟨rule, hrule, -⟩)
    · have hmem := schema_of_reaches_listsOrTexts hg
      cases hwords <;> simp [listsOrTexts] at hmem
    · cases hrule
  constructor
  · obtain ⟨hmet, hfound, hinput⟩ := circular_iff_recurs idleHost .immediate 4 listsOrTexts
      (.shared 0 false) selfAndTwins
    rcases hfound _ found_selfAndTwins rfl with ⟨-, f, hf, hmeets, hrecurs, hpath⟩ | hcoded
    · obtain ⟨hplaces, -⟩ := hinput (keeps_idleHost _) (hfree _)
      have hplace : f.context.path = [.index 0] := hpath.symm
      have hagain := (hplaces f hf hmeets).2.mp hrecurs
      rw [hplace] at hagain
      exact ⟨f, hf, hrecurs, hplace, (hmet f hf hmeets).1.mpr hrecurs, hagain⟩
    · exact absurd hcoded (huncoded _ _)
  · obtain ⟨-, -, hinput⟩ := circular_iff_recurs idleHost .immediate 4 listsOrTexts
      (.shared 2 false) selfAndTwins
    intro x hx hcode
    exact huncoded _ _ ((hinput (keeps_idleHost _) (hfree _)).2 acyclic_twins x hx hcode)

end Conform
