import Conform.Proofs.Absence
import Conform.Proofs.Appends
import Conform.Proofs.Descent
import Conform.Proofs.Provenance

/-!
# Where the paths of errors part

A text and a place in a sequence may be written alike: `"0"` and `0` are two keys, but
one word. Still the errors of a run do not mistake one for the other. On the context of
a check each place is looked into once, as a mapping or as a sequence: the options of a
union and the members of an intersection are tried on forks, whose errors become details
of one error at the place of the attempt. So where the paths of two errors go on by
different keys of one place, these are keys of one object, or places in one sequence.

The errors that a check adds are at its place, and below it by keys of its schemas and
places in sequences, and their paths part plainly: where they go on by different keys,
these are written differently. The loops over fields and elements carry this: to what is
below some keys they add what is below one more.

## Main results

* `Traverse.fans_of_checkFields`, `Traverse.fans_of_firstItems` — the loops, with the
  keys of what is done.
* `Call.branches_of_run` — every check that ends by a value.
* `Validate.Refuses.branches` — the errors of a whole value.
-/

namespace Conform

open Traverse

/-! ## Paths that part -/

namespace Path

/-- As long as two paths are written alike, they go on by the same keys. -/
def PartsPlainly : Path → Path → Prop
  | k :: p, l :: q => k.plain = l.plain → k = l ∧ PartsPlainly p q
  | _, _ => True

variable {p q r : Path}

theorem PartsPlainly.symm (h : PartsPlainly p q) : PartsPlainly q p := by
  induction p generalizing q with
  | nil => cases q <;> trivial
  | cons k p ih =>
      cases q with
      | nil => trivial
      | cons l q =>
          intro hplain
          obtain ⟨hkey, hrest⟩ := h hplain.symm
          exact ⟨hkey.symm, ih hrest⟩

/-- A path that leads on from another does not part from it. -/
theorem partsPlainly_of_prefix (h : p <+: q) : PartsPlainly p q := by
  induction p generalizing q with
  | nil => trivial
  | cons k p ih =>
      obtain ⟨q, rfl, hrest⟩ := List.cons_prefix_iff.mp h
      exact fun _ => ⟨rfl, ih hrest⟩

/-- Paths that go on by keys that are written differently. -/
theorem partsPlainly_of_keys {k l : Key} (h : k.plain ≠ l.plain) (hp : r ++ [k] <+: p)
    (hq : r ++ [l] <+: q) : PartsPlainly p q := by
  induction r generalizing p q with
  | nil =>
      obtain ⟨p, rfl, -⟩ := List.cons_prefix_iff.mp hp
      obtain ⟨q, rfl, -⟩ := List.cons_prefix_iff.mp hq
      exact fun hplain => absurd hplain h
  | cons m r ih =>
      obtain ⟨p, rfl, hp'⟩ := List.cons_prefix_iff.mp hp
      obtain ⟨q, rfl, hq'⟩ := List.cons_prefix_iff.mp hq
      exact fun _ => ⟨rfl, ih hp' hq'⟩

/-- Paths that part plainly are told apart by how they are written. -/
theorem PartsPlainly.eq_of_plain_eq (h : PartsPlainly p q)
    (hplain : p.map Key.plain = q.map Key.plain) : p = q := by
  induction p generalizing q with
  | nil => exact (List.map_eq_nil_iff.mp hplain.symm).symm
  | cons k p ih =>
      cases q with
      | nil => cases hplain
      | cons l q =>
          obtain ⟨hkey, hrest⟩ := List.cons.inj hplain
          obtain ⟨rfl, hparts⟩ := h hkey
          rw [ih hparts hrest]

end Path

/-- Places in a sequence are written differently. -/
theorem Key.plain_index_injective : Function.Injective fun i : Nat => (Key.index i).plain := by
  intro i j h
  have hdigits : Decimal.digits i = Decimal.digits j := String.ofList_injective h
  simpa using congrArg Decimal.value hdigits

/-! ## Errors below a place -/

/-- Errors whose paths part plainly. -/
def PartPlainly (es : List ErrorRecord) : Prop :=
  ∀ x ∈ es, ∀ y ∈ es, x.path.PartsPlainly y.path

/-- Errors at a place. -/
def Here (p : Path) (es : List ErrorRecord) : Prop := ∀ x ∈ es, x.path = p

/-- An error at a place, or below it by keys of a kind. -/
def Below (N : Key → Prop) (p : Path) (x : ErrorRecord) : Prop :=
  ∃ q, x.path = p ++ q ∧ ∀ k ∈ q, N k

/-- Errors at a place, and below it by keys of a kind. Their paths part plainly. -/
structure Branches (N : Key → Prop) (p : Path) (es : List ErrorRecord) : Prop where
  below : ∀ x ∈ es, Below N p x
  parts : PartPlainly es

/-- Errors below some keys of a place. Their paths part plainly. -/
structure Fans (N : Key → Prop) (p : Path) (ks : List Key) (es : List ErrorRecord) : Prop where
  below : ∀ x ∈ es, ∃ k ∈ ks, Below N (p ++ [k]) x
  parts : PartPlainly es

section Errors

variable {N : Key → Prop} {p : Path} {ks : List Key} {k : Key} {x : ErrorRecord}
  {es fs : List ErrorRecord}

theorem partPlainly_nil : PartPlainly [] := by simp [PartPlainly]

theorem PartPlainly.append (hes : PartPlainly es) (hfs : PartPlainly fs)
    (hcross : ∀ x ∈ es, ∀ y ∈ fs, x.path.PartsPlainly y.path) : PartPlainly (es ++ fs) := by
  intro x hx y hy
  rcases List.mem_append.mp hx with hx | hx <;> rcases List.mem_append.mp hy with hy | hy
  · exact hes x hx y hy
  · exact hcross x hx y hy
  · exact (hcross y hy x hx).symm
  · exact hfs x hx y hy

theorem Below.isPrefix (h : Below N p x) : p <+: x.path := by
  obtain ⟨q, hq, -⟩ := h
  exact ⟨q, hq.symm⟩

theorem Below.of_key (hk : N k) (h : Below N (p ++ [k]) x) : Below N p x := by
  obtain ⟨q, hq, hkeys⟩ := h
  exact ⟨k :: q, by simp [hq], List.forall_mem_cons.mpr ⟨hk, hkeys⟩⟩

theorem here_nil (p : Path) : Here p [] := by simp [Here]

theorem here_singleton (h : x.path = p) : Here p [x] := by simp [Here, h]

theorem Here.append (h : Here p es) (h' : Here p fs) : Here p (es ++ fs) :=
  List.forall_mem_append.mpr ⟨h, h'⟩

theorem fans_nil (N : Key → Prop) (p : Path) (ks : List Key) : Fans N p ks [] :=
  ⟨by simp, partPlainly_nil⟩

theorem Fans.mono_keys {ls : List Key} (hks : ks ⊆ ls) (h : Fans N p ks es) : Fans N p ls es where
  below x hx := by
    obtain ⟨k, hk, hbelow⟩ := h.below x hx
    exact ⟨k, hks hk, hbelow⟩
  parts := h.parts

theorem Fans.branches (hks : ∀ k ∈ ks, N k) (h : Fans N p ks es) : Branches N p es where
  below x hx := by
    obtain ⟨k, hk, hbelow⟩ := h.below x hx
    exact hbelow.of_key (hks k hk)
  parts := h.parts

/-- Errors at the place itself part from nothing below. -/
theorem Branches.append_here (h : Branches N p es) (h' : Here p fs) :
    Branches N p (es ++ fs) where
  below := List.forall_mem_append.mpr ⟨h.below, fun x hx => ⟨[], by simp [h' x hx]⟩⟩
  parts := by
    refine h.parts.append (fun x hx y hy => ?_) fun x hx y hy => ?_
    · exact Path.partsPlainly_of_prefix (by simp [h' x hx, h' y hy])
    · exact (Path.partsPlainly_of_prefix (h' y hy ▸ (h.below x hx).isPrefix)).symm

theorem Here.branches (N : Key → Prop) (h : Here p es) : Branches N p es := by
  have hnone : Branches N p [] := ⟨by simp, partPlainly_nil⟩
  exact hnone.append_here h

/-- What is below one more key parts from what is below the keys before, if these are
written differently. -/
theorem Fans.append_key (h : Fans N p ks es) (hfs : Branches N (p ++ [k]) fs)
    (hk : ∀ l ∈ ks, l.plain ≠ k.plain) : Fans N p (ks ++ [k]) (es ++ fs) where
  below := by
    refine List.forall_mem_append.mpr ⟨fun x hx => ?_, fun x hx => ⟨k, by simp, hfs.below x hx⟩⟩
    obtain ⟨l, hl, hlx⟩ := h.below x hx
    exact ⟨l, List.mem_append_left _ hl, hlx⟩
  parts := by
    refine h.parts.append hfs.parts fun x hx y hy => ?_
    obtain ⟨l, hl, hlx⟩ := h.below x hx
    exact Path.partsPlainly_of_keys (hk l hl) hlx.isPrefix (hfs.below y hy).isPrefix

end Errors

/-! ## Errors that are added -/

/-- The errors of the first context are those of the second, with some of a kind added
behind them. -/
def Context.Adds (P : List ErrorRecord → Prop) (c c' : Context) : Prop :=
  ∃ es, c'.errors = c.errors ++ es ∧ P es

namespace Context.Adds

variable {P Q R : List ErrorRecord → Prop} {c c₁ c' : Context}

theorem mono (h : c.Adds P c') (hPQ : ∀ es, P es → Q es) : c.Adds Q c' := by
  obtain ⟨es, hes, hP⟩ := h
  exact ⟨es, hes, hPQ es hP⟩

theorem of_errors_eq (h : c'.errors = c.errors) (hP : P []) : c.Adds P c' :=
  ⟨[], by rw [h, List.append_nil], hP⟩

theorem trans (h : c.Adds P c₁) (h' : c₁.Adds Q c') (hR : ∀ es fs, P es → Q fs → R (es ++ fs)) :
    c.Adds R c' := by
  obtain ⟨es, hes, hP⟩ := h
  obtain ⟨fs, hfs, hQ⟩ := h'
  exact ⟨es ++ fs, by rw [hfs, hes, List.append_assoc], hR es fs hP hQ⟩

theorem addError {x : ErrorRecord} {p : Path} (h : x.path = p) :
    c.Adds (Here p) (c.addError x) :=
  ⟨[x], rfl, here_singleton h⟩

/-- What is added while a value is looked into is added. -/
theorem of_mark {v : Value} (h : (c.mark v).Adds P c') : c.Adds P (c'.unmark v) := by
  simpa [Adds] using h

/-- After what branches from a place, errors at the place. -/
theorem append_here {N : Key → Prop} {p : Path} (h : c.Adds (Branches N p) c₁)
    (h' : c₁.Adds (Here p) c') : c.Adds (Branches N p) c' :=
  h.trans h' fun _ _ => Branches.append_here

end Context.Adds

namespace Traverse

variable {σ : Type} {env : Setting σ} {accepts : MissingTest σ} {child : Checker σ}
  {N : Key → Prop} {c c' : Context} {w w' : World σ} {r : Value}

/-! ## Errors at the place of the context -/

theorem here_of_addViolation {x : Violation} {u : Unit}
    (h : (Engine.addViolation env x).runIn c w = (.ok u, c', w')) : c.Adds (Here c.path) c' := by
  obtain ⟨message, rfl, -⟩ := Engine.eq_addError_of_runIn_addViolation h
  exact .addError rfl

theorem here_of_refuse {x : Violation} (h : (Engine.refuse env x).runIn c w = (.ok r, c', w')) :
    c.Adds (Here c.path) c' := by
  obtain ⟨-, message, rfl, -⟩ := Engine.eq_addError_of_runIn_refuse h
  exact .addError rfl

theorem here_of_addViolations {xs : List Violation} {u : Unit}
    (h : (addViolations env xs).runIn c w = (.ok u, c', w')) : c.Adds (Here c.path) c' := by
  induction xs generalizing c w with
  | nil =>
      cases h
      exact .of_errors_eq rfl (here_nil _)
  | cons x xs ih =>
      obtain ⟨u₁, c₁, w₁, hx, hxs⟩ := Engine.runIn_bind_ok_iff.mp h
      obtain ⟨message, rfl, -⟩ := Engine.eq_addError_of_runIn_addViolation hx
      exact (here_of_addViolation hx).trans (ih hxs) fun _ _ => Here.append

theorem here_of_settle {j : Except Fault Judgement}
    (h : (settle env j).runIn c w = (.ok r, c', w')) : c.Adds (Here c.path) c' := by
  unfold settle at h
  split at h
  · cases h
  · cases h
    exact .of_errors_eq rfl (here_nil _)
  · exact here_of_refuse h

theorem here_of_finishObject {fields : Entries Schema} {unknown : UnknownKeys} {v : Value}
    {results : Entries Value} {failed : Bool}
    (h : (finishObject env fields unknown v results failed).runIn c w = (.ok r, c', w')) :
    c.Adds (Here c.path) c' := by
  rcases cases_of_runIn_finishObject h with ⟨-, -, hrefuse⟩ | ⟨-, rfl, -, -⟩
  · exact here_of_refuse hrefuse
  · exact .of_errors_eq rfl (here_nil _)

/-- What the options leave on their forks becomes one error at the place of the union. -/
theorem here_of_tryOptions {v : Value} {groups : List (List ErrorRecord)} {options : List Schema}
    (h : (tryOptions env child v groups options).runIn c w = (.ok r, c', w')) :
    c.Adds (Here c.path) c' := by
  induction options generalizing c w groups with
  | nil => exact here_of_refuse h
  | cons option options ih =>
      obtain ⟨⟨u, errors⟩, c₁, w₁, hattempt, h⟩ := Engine.runIn_bind_ok_iff.mp h
      obtain ⟨fork, -, -, rfl⟩ := Engine.runIn_speculate_ok_iff.mp hattempt
      by_cases hclean : errors.isEmpty
      · simp only [hclean, if_true] at h
        cases h
        exact .of_errors_eq rfl (here_nil _)
      · simp only [hclean, Bool.false_eq_true, if_false] at h
        have hmore := ih h
        exact hmore

/-- The members leave nothing on the context of the intersection. -/
theorem errors_of_tryMembers {v : Value} {members : List Schema}
    {done : List Value × List (List ErrorRecord)}
    (h : (tryMembers child v members).runIn c w = (.ok done, c', w')) :
    c'.errors = c.errors ∧ c'.path = c.path := by
  induction members generalizing c w c' w' done with
  | nil =>
      cases h
      exact ⟨rfl, rfl⟩
  | cons member members ih =>
      obtain ⟨⟨u, errors⟩, c₁, w₁, hattempt, h⟩ := Engine.runIn_bind_ok_iff.mp h
      obtain ⟨fork, -, -, rfl⟩ := Engine.runIn_speculate_ok_iff.mp hattempt
      obtain ⟨rest, c₂, w₂, hrest, h⟩ := Engine.runIn_bind_ok_iff.mp h
      have hkept := ih hrest
      by_cases hclean : errors.isEmpty <;>
      · simp only [hclean, if_true, Bool.false_eq_true, if_false] at h
        cases h
        exact hkept

theorem here_of_combine {depth : Nat} {results : List Value} {groups : List (List ErrorRecord)}
    (h : (combine env depth results groups).runIn c w = (.ok r, c', w')) :
    c.Adds (Here c.path) c' := by
  unfold combine at h
  split at h
  · exact here_of_refuse h
  · split at h
    · cases h
      exact .of_errors_eq rfl (here_nil _)
    · rw [Engine.runIn_bind_of_ok _ (Engine.runIn_store c w)] at h
      split at h
      · cases h
        exact .of_errors_eq rfl (here_nil _)
      · exact here_of_refuse h
      · cases h

theorem here_of_applyStep {step : Step} {v : Value}
    (h : (applyStep env step v).runIn c w = (.ok r, c', w')) : c.Adds (Here c.path) c' := by
  rw [runIn_applyStep] at h
  split at h <;> cases h
  · exact .of_errors_eq rfl (here_nil _)
  · exact .addError rfl

theorem here_of_askAbout {mode : Mode} {id : Nat} {words : Option String} {code : Code} {v : Value}
    (h : (askAbout env mode id words code v).runIn c w = (.ok r, c', w')) :
    c.Adds (Here c.path) c' := by
  obtain ⟨answer, c₁, w₁, hask, h⟩ := Engine.runIn_bind_ok_iff.mp h
  have hpath := Validate.path_of_ask hask
  have herrors := (appends_of_ask hask).errors_eq
  split at h <;> cases h
  · exact .of_errors_eq herrors (here_nil _)
  · exact .of_errors_eq herrors (here_nil _)
  all_goals exact ⟨[_], by rw [← herrors]; rfl, here_singleton hpath⟩

/-! ## Fields and elements -/

theorem branches_of_field {v : Value} {k : Key} {field : Schema} {out : Option Value × Bool}
    (hchild : ∀ u w₁ r c₁ w₂, Handed accepts v k field w u w₁ →
      (child field u).runIn (c.push k) w₁ = (.ok r, c₁, w₂) →
      (c.push k).Adds (Branches N (c.path ++ [k])) c₁)
    (h : (checkField env accepts child v k field).runIn c w = (.ok out, c', w')) :
    c.Adds (Branches N (c.path ++ [k])) c' := by
  rcases cases_of_runIn_checkField h with
    ⟨u, w₁, r, c₁, hhanded, hrun, rfl, -⟩ | ⟨w₁, c₁, -, -, hadd, rfl, -⟩
  · exact hchild u w₁ r c₁ _ hhanded hrun
  · exact (here_of_addViolation hadd).mono fun _ => Here.branches N

/-- What the fields add is below their keys, if no two of these are written alike. -/
theorem fans_of_checkFields {mode : Mode} {depth : Nat} {v : Value} {fields : Entries Schema}
    (hkeys : (fields.keys.map Key.plain).Nodup)
    (hchild : ∀ earlier k field later done c₁ w₁ u w₂ r c₂ w₃,
      fields = earlier ++ (k, field) :: later →
      (checkFields env (env.acceptsMissing depth) (check env mode depth) v
        earlier).runIn c w = (.ok done, c₁, w₁) →
      Handed (env.acceptsMissing depth) v k field w₁ u w₂ →
      (check env mode depth field u).runIn (c₁.push k) w₂ = (.ok r, c₂, w₃) →
      (c₁.push k).Adds (Branches N (c₁.path ++ [k])) c₂)
    {done : Entries Value × Bool}
    (h : (checkFields env (env.acceptsMissing depth) (check env mode depth) v
      fields).runIn c w = (.ok done, c', w')) :
    c.Adds (Fans N c.path fields.keys) c' := by
  -- from the back, for a field is checked where the check of those before it has ended
  induction fields using List.reverseRecOn generalizing done c' w' with
  | nil =>
      cases h
      exact .of_errors_eq rfl (fans_nil _ _ _)
  | append_singleton fields e ih =>
      obtain ⟨k, field⟩ := e
      have hkeysOf : Entries.keys (fields ++ [(k, field)]) = Entries.keys fields ++ [k] := by
        simp [Entries.keys]
      rw [hkeysOf, List.map_append, List.map_singleton, List.nodup_append] at hkeys
      obtain ⟨hfields, -, hnew⟩ := hkeys
      rw [checkFields_concat] at h
      obtain ⟨before, c₁, w₁, hbefore, h⟩ := Engine.runIn_bind_ok_iff.mp h
      obtain ⟨out, c₂, w₂, hout, h⟩ := Engine.runIn_bind_ok_iff.mp h
      simp only [Engine.runIn_pure, Prod.mk.injEq, Except.ok.injEq] at h
      obtain ⟨-, rfl, rfl⟩ := h
      have hearlier := ih hfields (fun earlier l other later done c₁ w₁ u w₂ r c₂ w₃ hsplit =>
        hchild earlier l other (later ++ [(k, field)]) done c₁ w₁ u w₂ r c₂ w₃
          (by simp [hsplit])) hbefore
      have hfield := branches_of_field
        (fun u w₂ r c₂ w₃ => hchild fields k field [] before c₁ w₁ u w₂ r c₂ w₃ rfl hbefore) hout
      rw [(restored_of_checkFields hbefore).path] at hfield
      rw [hkeysOf]
      refine hearlier.trans hfield fun es fs hes hfs => hes.append_key hfs fun l hl => ?_
      exact hnew _ (List.mem_map_of_mem hl) _ (List.mem_singleton_self _)

/-- What the first elements add is below their places. -/
theorem fans_of_firstItems {mode : Mode} {depth : Nat} {element : Schema} {v : Value} {n : Nat}
    (hchild : ∀ i u done c₁ w₁ r c₂ w₂, i < n →
      (firstItems (check env mode depth element) v i).runIn c w = (.ok done, c₁, w₁) →
      (w₁.store.itemsOf v)[i]? = some u →
      (check env mode depth element u).runIn (c₁.push (.index i)) w₁ = (.ok r, c₂, w₂) →
      (c₁.push (.index i)).Adds (Branches N (c₁.path ++ [.index i])) c₂)
    {done : List Value × Bool}
    (h : (firstItems (check env mode depth element) v n).runIn c w = (.ok done, c', w')) :
    c.Adds (Fans N c.path ((List.range n).map .index)) c' := by
  induction n generalizing done c' w' with
  | zero =>
      cases h
      exact .of_errors_eq rfl (fans_nil _ _ _)
  | succ n ih =>
      obtain ⟨before, c₁, w₁, hbefore, hturn⟩ := Engine.runIn_bind_ok_iff.mp h
      have hearlier := ih (fun i u done c₁ w₁ r c₂ w₂ hlt =>
        hchild i u done c₁ w₁ r c₂ w₂ (by omega)) hbefore
      rw [List.range_succ, List.map_append]
      rcases cases_of_runIn_nextItem hturn with
        ⟨-, -, rfl, -⟩ | ⟨u, r, c₂, hitem, hone, rfl, -⟩
      · exact hearlier.mono fun _ => Fans.mono_keys (List.subset_append_left _ _)
      · have hadded : c₁.Adds (Branches N (c₁.path ++ [.index n])) c₂.pop :=
          hchild n u before c₁ w₁ r c₂ w' (by omega) hbefore hitem hone
        rw [(restored_of_firstItems hbefore).path] at hadded
        refine hearlier.trans hadded fun es fs hes hfs => hes.append_key hfs fun l hl => ?_
        obtain ⟨i, hi, rfl⟩ := List.mem_map.mp hl
        exact Key.plain_index_injective.ne (List.mem_range.mp hi).ne

/-- The fields, and then what is wrong with the object itself. -/
theorem branches_of_checkObject {mode : Mode} {depth : Nat} {fields : Entries Schema}
    {unknown : UnknownKeys} {v : Value} (hnamed : ∀ k ∈ fields.keys, N k)
    (hkeys : (fields.keys.map Key.plain).Nodup)
    (hchild : ∀ g, Call.Makes env mode ⟨depth + 1, .object fields unknown, v, c, w⟩ g →
      ∀ r c' w', g.run env mode = (.ok r, c', w') →
        g.context.Adds (Branches N g.context.path) c')
    (h : (checkObject env (env.acceptsMissing depth) (check env mode depth) fields unknown v).runIn
      c w = (.ok r, c', w')) : c.Adds (Branches N c.path) c' := by
  rcases cases_of_runIn_checkObject h with ⟨-, hrefuse⟩ | ⟨-, -, hrefuse⟩ |
    ⟨hobject, hfresh, done, c₁, w₁, hfields, hfinish⟩
  · exact (here_of_refuse hrefuse).mono fun _ => Here.branches N
  · exact (here_of_refuse hrefuse).mono fun _ => Here.branches N
  · have hadded := fans_of_checkFields hkeys
      (fun earlier k field later done c₁ w₁ u w₂ r c₂ w₃ hsplit hearlier hhanded =>
        hchild _ (.field hobject hfresh hsplit hearlier hhanded) r c₂ w₃) hfields
    have hfinished := here_of_finishObject hfinish
    have hpath := (restored_of_checkFields hfields).path
    rw [Context.path_unmark, hpath] at hfinished
    rw [← c.path_mark v]
    exact (hadded.mono fun _ => Fans.branches hnamed).of_mark.append_here hfinished

/-- The elements, and then the bounds on how many there are. -/
theorem branches_of_checkArray {mode : Mode} {depth : Nat} {element : Schema}
    {bounds : ArrayBounds} {v : Value} (hplaces : ∀ i, N (.index i))
    (hchild : ∀ g, Call.Makes env mode ⟨depth + 1, .array element bounds, v, c, w⟩ g →
      ∀ r c' w', g.run env mode = (.ok r, c', w') →
        g.context.Adds (Branches N g.context.path) c')
    (h : (checkArray env depth (check env mode depth) element bounds v).runIn c w =
      (.ok r, c', w')) :
    c.Adds (Branches N c.path) c' := by
  rcases cases_of_runIn_checkArray h with ⟨-, hrefuse⟩ | ⟨-, -, hrefuse⟩ |
    ⟨harray, hfresh, done, c₁, w₁, hitems, -, hfinish⟩
  · exact (here_of_refuse hrefuse).mono fun _ => Here.branches N
  · exact (here_of_refuse hrefuse).mono fun _ => Here.branches N
  · have hadded := fans_of_firstItems
      (fun i u done c₁ w₁ r c₂ w₂ hmore hearlier hitem =>
        hchild _ (.element harray hfresh hmore hearlier hitem) r c₂ w₂) hitems
    have hbounded := here_of_addViolations (runIn_finishArray_ok_iff.mp hfinish).1
    have hpath := (restored_of_firstItems hitems).path
    rw [Context.path_unmark, hpath] at hbounded
    rw [← c.path_mark v]
    refine (hadded.mono fun _ => Fans.branches ?_).of_mark.append_here hbounded
    simpa using fun i _ => hplaces i

end Traverse

/-! ## Keys of schemas -/

namespace Schema

/-- If a schema is an object, its keys are of a kind, and no two of them are written
alike. Distinct texts never are. -/
def KeyedHere (N : Key → Prop) : Schema → Prop
  | object fields _ => (∀ k ∈ Entries.keys fields, N k) ∧
      ((Entries.keys fields).map Key.plain).Nodup
  | _ => True

/-- So it is for a schema and for those that stand in it. -/
def Keyed (N : Key → Prop) (s : Schema) : Prop := ∀ t, s.Part t → t.KeyedHere N

theorem Keyed.of_step {N : Key → Prop} {s t : Schema} (hs : s.Keyed N)
    (h : s.Passes t ∨ s.Guards t) : t.Keyed N :=
  fun u hu => hs u (.head h hu)

theorem Keyed.mono {N M : Key → Prop} {s : Schema} (hs : s.Keyed N) (h : ∀ k, N k → M k) :
    s.Keyed M := by
  intro t ht
  have hkeyed := hs t ht
  cases t with
  | object fields unknown => exact ⟨fun k hk => h k (hkeyed.1 k hk), hkeyed.2⟩
  | _ => trivial

end Schema

/-! ## Whole runs -/

section Runs

variable {σ : Type} {env : Setting σ} {may : Nat → Schema → Prop} {mode : Mode} {N : Key → Prop}

namespace Call

variable {f g : Call σ} {r : Value} {c' : Context} {w' : World σ}

/-- The schemas of a run are keyed as the first is and those that are deferred. -/
theorem keyedHere_of_reaches (hkeeps : env.Keeps (World.Stands may))
    (hmay : ∀ id t, may id t → t.Keyed N) (hs : f.schema.Keyed N) (hw : f.world.Stands may)
    (hreaches : Reaches env mode f g) : g.schema.KeyedHere N := by
  refine Call.schema_of_reaches hkeeps hw (fun _ _ ht hstep => ht.of_step hstep) ?_ hs hreaches
    g.schema .refl
  intro id w t w' hw hresolve
  exact hmay id t ((hkeeps.resolve id).of_run hresolve hw id t (standing_of_resolve hresolve))

/-- The errors that a check adds are at its place, and below it by keys of its schemas
and places in sequences. Their paths part plainly. -/
theorem branches_of_run (hplaces : ∀ i, N (.index i))
    (hkeyed : ∀ g, Reaches env mode f g → g.schema.KeyedHere N)
    (h : f.run env mode = (.ok r, c', w')) :
    f.context.Adds (Branches N f.context.path) c' := by
  induction f using Call.induct env mode generalizing r c' w' with
  | h f ih =>
      have hself := hkeyed f .refl
      have hmade : ∀ g, Makes env mode f g → ∀ r c' w', g.run env mode = (.ok r, c', w') →
          g.context.Adds (Branches N g.context.path) c' :=
        fun g hg r c' w' => ih g hg fun k hk => hkeyed k (.head hg hk)
      clear ih hkeyed
      obtain ⟨_ | depth, s, v, c, w⟩ := f
      · cases h
      have hrun : (checkLayer env mode depth (env.acceptsMissing depth) (check env mode depth)
        s v).runIn c w = (.ok r, c', w') := h
      -- only objects and arrays go down; a wrapper goes on at its place by one call, and
      -- what it adds itself comes after that, at the place
      cases s with
      | object fields unknown => exact branches_of_checkObject hself.1 hself.2 hmade hrun
      | array element bounds => exact branches_of_checkArray hplaces hmade hrun
      | union first rest => exact (here_of_tryOptions hrun).mono fun _ => Here.branches N
      | intersection first rest =>
          obtain ⟨done, c₁, w₁, htried, hcombine⟩ := Engine.runIn_bind_ok_iff.mp hrun
          obtain ⟨herrors, hpath⟩ := errors_of_tryMembers htried
          have hcombined := here_of_combine hcombine
          rw [Context.Adds, herrors, hpath] at hcombined
          exact Context.Adds.mono hcombined fun _ => Here.branches N
      | optional inner =>
          cases hmissing : isMissing v with
          | true =>
              simp only [checkLayer, hmissing, if_true] at hrun
              cases hrun
              exact .of_errors_eq rfl ((here_nil _).branches N)
          | false =>
              simp only [checkLayer, hmissing, Bool.false_eq_true, if_false] at hrun
              exact hmade _ (.optional hmissing) r c' w' hrun
      | nullable inner =>
          simp only [checkLayer] at hrun
          split at hrun
          · cases hrun
            exact .of_errors_eq rfl ((here_nil _).branches N)
          · rename_i hnull
            exact hmade _ (.nullable hnull) r c' w' hrun
      | withDefault inner default =>
          cases hmissing : isMissing v with
          | true =>
              simp only [checkLayer, hmissing, if_true] at hrun
              obtain ⟨hcopyable, d, hcopy, rfl⟩ := runIn_copied_ok_iff.mp hrun
              exact hmade _ (.copy hmissing hcopyable) r d w' hcopy
          | false =>
              simp only [checkLayer, hmissing, Bool.false_eq_true, if_false] at hrun
              exact hmade _ (.withDefault hmissing) r c' w' hrun
      | transform inner step =>
          obtain ⟨u, c₁, w₁, hinner, hstep⟩ := Engine.runIn_bind_ok_iff.mp hrun
          have hadded := hmade _ .transform u c₁ w₁ hinner
          split at hstep
          · cases hstep
            exact hadded
          · have happlied := here_of_applyStep hstep
            rw [(restored_of_check hinner).path] at happlied
            exact hadded.append_here happlied
      | refine inner id words code =>
          obtain ⟨u, c₁, w₁, hinner, hask⟩ := Engine.runIn_bind_ok_iff.mp hrun
          have hadded := hmade _ .refine u c₁ w₁ hinner
          split at hask
          · cases hask
            exact hadded
          · have hasked := here_of_askAbout hask
            rw [(restored_of_check hinner).path] at hasked
            exact hadded.append_here hasked
      | deferred id =>
          obtain ⟨s, c₁, w₁, hresolved, hrest⟩ := Engine.runIn_bind_ok_iff.mp hrun
          obtain ⟨hresolve, rfl⟩ := Engine.runIn_ofAct_ok_iff.mp hresolved
          exact hmade _ (.deferred hresolve) r c' w' hrest
      | _ =>
          rw [runIn_checkLayer_of_judge? rfl] at hrun
          exact (here_of_settle hrun).mono fun _ => Here.branches N

end Call

namespace Validate

variable {depth : Nat} {s : Schema} {v : Value} {w : World σ} {es : List ErrorRecord}

/-- The errors of a whole value are those of its check, or those of the rules, which
are all at the root. -/
theorem Refuses.branches (hplaces : ∀ i, N (.index i)) (hkeeps : env.Keeps (World.Stands may))
    (hmay : ∀ id t, may id t → t.Keyed N) (hs : s.Keyed N) (hw : w.Stands may)
    (h : Refuses env mode depth s v w es) : Branches N [] es := by
  obtain ⟨r, c, w', hrun, rfl⟩ := h.exists_run
  obtain ⟨c₁, w₁, hrun, hrest⟩ := runIn_checkWhole_ok_iff.mp hrun
  obtain ⟨fs, hfs, hbranches⟩ := Call.branches_of_run (f := ⟨depth, s, v, {}, w⟩) hplaces
    (fun g hg => Call.keyedHere_of_reaches hkeeps hmay hs hw hg) hrun
  have hfs : c₁.errors = fs := hfs
  split at hrest
  · rename_i hclean
    have hasked : Telling (fun x => x.path = c₁.path) (· = ·) c₁ w₁
        (askRules env mode s v env.rules) := telling_askRules fun _ _ _ => rfl
    obtain ⟨-, gs, hgs, htold⟩ := hasked () c w' hrest
    have hpath : c₁.path = [] := (restored_of_check hrun).path
    rw [hgs, List.isEmpty_iff.mp hclean, List.nil_append]
    have hhere : Here [] gs := fun x hx => (htold x hx x .refl).trans hpath
    exact hhere.branches N
  · obtain ⟨rfl, -⟩ := hrest
    exact hfs ▸ hbranches

end Validate

end Runs

end Conform
