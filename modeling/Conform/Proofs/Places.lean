import Conform.Proofs.Absence
import Conform.Proofs.Descent
import Conform.Proofs.Provenance

/-!
# Where errors point

The path of an error is what the context was pushed down by, and a step may have
put something else in the place of a value by then. Still the path leads through
the value that was handed in: without defaults, every call is for something that
stands in it, for results are never looked into.

The one exception is a field whose key is not there. It is checked only if its flag
says that it accepts an absent value, and then the check leaves no error. So only
the error that says that the key is missing points there.

A host may change containers while they are checked. `Call.Leads` reads each
container on a path in a world of the run that comes after the call that looks into it,
and an error `Sits` where such a path leads. If the containers stay as they are, that is
the place to which the path leads in the value itself.

## Main results

* `Call.Reports.place` — a violation is reported at the place of the call, with the
  kind of the value that is there, or at a key that a mapping lacks.
* `walks_of_placed` — every error that a call adds, however deep, sits at a place.
* `found_sits_at_place` — so does every error in the refusal of a whole value.
-/

namespace Conform

open Traverse

/-! ## Kinds in details -/

/-- The details of a value of the wrong kind. -/
def kindDetails (expected received : String) : Details :=
  .ofValues [("expected", .text expected), ("received", .text received)]

/-- A violation that is judged of a value: it does not say that something is
missing, and if it says that the value is of the wrong kind, it gives the kind that
the value is of. -/
structure Violation.Judges (st : Store) (v : Value) (x : Violation) : Prop where
  code : x.code ≠ .required
  kind (h : x.code = .invalidType) :
    ∃ expected, x.details = some (kindDetails expected (st.kindName v))

variable {st : Store} {v : Value} {x : Violation}

theorem judges_wrongKind (expected words : String) :
    (Violation.wrongKind expected (st.kindName v) words).Judges st v :=
  ⟨nofun, fun _ => ⟨expected, rfl⟩⟩

theorem judges_of_judgeString {c : StringChecks} (h : c.judge st v = .ok (.violated x)) :
    x.Judges st v := by
  unfold StringChecks.judge at h
  split at h
  · have hmem := mem_of_ofClauses h
    simp only [List.mem_cons, List.not_mem_nil, or_false] at hmem
    rcases hmem with h | h | h | h | h | h <;>
    · obtain ⟨check, -, rfl⟩ := exists_of_clause h.symm
      exact ⟨nofun, nofun⟩
  · cases h
    exact judges_wrongKind ..

theorem kindName_of_isNaN {a : Atom} {n : Number} (hn : a.number? = some n)
    (hnan : n.isNaN = true) : a.kindName = "NaN" := by
  cases a with
  | int i =>
      cases hn
      cases hnan
  | float y =>
      cases hn
      cases y with
      | nan => rfl
      | _ => cases hnan
  | _ => cases hn

theorem judges_of_judgeNumber {c : NumberChecks} (h : c.judge st v = .ok (.violated x)) :
    x.Judges st v := by
  unfold NumberChecks.judge at h
  split at h
  · rename_i a
    split at h
    · rename_i n hn
      unfold NumberChecks.judgeNumber at h
      split at h
      · rename_i hnan
        cases h
        have hkind : st.kindName (.atom a) = "NaN" := kindName_of_isNaN hn hnan
        exact ⟨nofun, fun _ => ⟨"number", by rw [hkind]; rfl⟩⟩
      · have hmem := mem_of_ofClauses h
        simp only [List.mem_cons, List.not_mem_nil, or_false] at hmem
        rcases hmem with h | h | h | h | h | h <;>
        · obtain ⟨check, -, rfl⟩ := exists_of_clause h.symm
          exact ⟨nofun, nofun⟩
    · cases h
      exact judges_wrongKind ..
  · cases h
    exact judges_wrongKind ..

theorem judges_of_judgeDate {c : DateChecks} (h : c.judge st v = .ok (.violated x)) :
    x.Judges st v := by
  unfold DateChecks.judge at h
  dsimp only at h
  split at h
  · split at h
    · have hmem := mem_of_ofClauses h
      simp only [List.mem_cons, List.not_mem_nil, or_false] at hmem
      rcases hmem with h | h <;>
      · obtain ⟨check, -, rfl⟩ := exists_of_clause h.symm
        exact ⟨nofun, nofun⟩
    · cases h
      exact judges_wrongKind ..
  · cases h
    exact judges_wrongKind ..

theorem judges_of_judgeWritten {read : String → Option Value} {code : BuiltinCode}
    {what : String} (hrequired : code ≠ .required) (hkind : code ≠ .invalidType)
    (h : judgeWritten read code what st v = .violated x) : x.Judges st v := by
  unfold judgeWritten at h
  split at h
  · split at h
    · cases h
    · cases h
      exact ⟨hrequired, fun h => absurd h hkind⟩
  · cases h
    exact ⟨nofun, fun _ => ⟨"string", rfl⟩⟩

theorem judges_of_judgeMember {members : List Atom} (h : judgeMember members v = .violated x) :
    x.Judges st v := by
  unfold judgeMember at h
  extract_lets found at h
  split at h
  · cases h
  · cases h
    exact ⟨nofun, nofun⟩

/-- A violation that a schema without parts judges. -/
theorem judges_of_judge? {s : Schema} (h : s.judge? st v = some (.ok (.violated x))) :
    x.Judges st v := by
  cases s with
  | any => cases h
  | string checks => exact judges_of_judgeString (Option.some.inj h)
  | number checks => exact judges_of_judgeNumber (Option.some.inj h)
  | boolean =>
      simp only [Schema.judge?, judgeBoolean, Option.some.injEq, Except.ok.injEq] at h
      split at h
      · cases h
      · cases h
        exact judges_wrongKind ..
  | date checks => exact judges_of_judgeDate (Option.some.inj h)
  | integerText =>
      simp only [Schema.judge?, Option.some.injEq, Except.ok.injEq] at h
      exact judges_of_judgeWritten (by decide) (by decide) h
  | decimalText =>
      simp only [Schema.judge?, Option.some.injEq, Except.ok.injEq] at h
      exact judges_of_judgeWritten (by decide) (by decide) h
  | enumeration first rest =>
      simp only [Schema.judge?, Option.some.injEq, Except.ok.injEq] at h
      exact judges_of_judgeMember h
  | _ => cases h

/-! ## Places of a run -/

namespace Call

variable {σ : Type} {env : Setting σ} {mode : Mode} {may : Nat → Schema → Prop} {f g h : Call σ}
  {p : Path} {x : ErrorRecord}

/-- A violation is reported at a key that a mapping lacks, which it says, or at the
place of the call, and then with the kind of the value of the call. -/
theorem Reports.place {w₁ : World σ} {x : Violation} (h : f.Reports w₁ x p) :
    (∃ k, (f.world.store.entries? f.value).isNone = false ∧
      (w₁.store.entriesOf f.value).find? k = none ∧ x = requiredMissing k ∧
      p = f.context.path ++ [k]) ∨
    (p = f.context.path ∧ x.Judges f.world.store f.value) := by
  cases h with
  | required hobject hfresh hfield habsent => exact .inl ⟨_, hobject, habsent, rfl, rfl⟩
  | notObject => exact .inr ⟨rfl, judges_wrongKind ..⟩
  | notArray => exact .inr ⟨rfl, judges_wrongKind ..⟩
  | judged h => exact .inr ⟨rfl, judges_of_judge? h⟩
  | bound hitems hfresh hx =>
      obtain ⟨code, name, relation, c, hmem, rfl⟩ := exists_of_mem_violatedBounds hx
      refine .inr ⟨rfl, fun hcode => ?_, fun hcode => ?_⟩ <;>
      · simp only [countViolation] at hcode
        simp [hcode] at hmem
  | _ =>
      refine .inr ⟨rfl, ?_, ?_⟩ <;>
      · intro hcode
        cases hcode

/-- A path leads from the value of a call to another, each container on it being
read in a world that comes after the call that looks into it. -/
inductive Leads (env : Setting σ) (mode : Mode) (f : Call σ) : Path → Value → Prop
  | root : Leads env mode f f.context.path f.value
  | down {g : Call σ} {k : Key} {u : Value} {w : World σ} (hreaches : Reaches env mode f g)
      (hleads : Leads env mode f g.context.path g.value) (hafter : env.After g.world w)
      (hchild : w.store.child? g.value k = some u) :
      Leads env mode f (g.context.path ++ [k]) u

/-- Where an error of a run sits: at a value to which its path leads, and then with
the kind of this value if it gives one, or at a key that a mapping lacks, which it
says. -/
inductive Sits (env : Setting σ) (mode : Mode) (f : Call σ) (x : ErrorRecord) : Prop
  | value {g : Call σ} (hreaches : Reaches env mode f g)
      (hleads : Leads env mode f x.path g.value)
      (hrequired : x.code = .builtin .required → x.details = none)
      (hkind : x.code = .builtin .invalidType → ∀ ds, x.details = some ds →
        ∃ expected, ds = kindDetails expected (g.world.store.kindName g.value))
  | key {g : Call σ} {k : Key} {w : World σ} (hreaches : Reaches env mode f g)
      (hleads : Leads env mode f g.context.path g.value) (hpath : x.path = g.context.path ++ [k])
      (hobject : (g.world.store.entries? g.value).isNone = false) (hafter : env.After g.world w)
      (habsent : (w.store.entriesOf g.value).find? k = none) (hcode : x.code = .builtin .required)

/-- A call of a run is for a value to which the path of its context leads, and no
default stands in its schema. -/
structure Placed (env : Setting σ) (mode : Mode) (may : Nat → Schema → Prop) (f g : Call σ) :
    Prop where
  reaches : Reaches env mode f g
  leads : Leads env mode f g.context.path g.value
  free : g.schema.DefaultFree
  stands : g.world.Stands may

/-- A call that is made is at its place, or changes nothing if it ends by a
value. -/
theorem Placed.of_makes (henv : env.Upholds may) (hmay : ∀ id t, may id t → t.DefaultFree)
    (hg : Placed env mode may f g) (hmakes : Makes env mode g h) :
    Placed env mode may f h ∨ ∀ r c' w', h.run env mode = (.ok r, c', w') → c' = h.context := by
  have hreaches := hg.reaches.tail hmakes
  have hstands := hmakes.keeps henv.stands hg.stands
  have hafter := hmakes.after
  have hset := Carry.keeping_settings henv.stands mode
  cases hmakes with
  | @field _ _ _ v _ _ _ k _ _ _ _ _ _ w₂ hobject hfresh hfields hearlier hhanded =>
      have hfree := hg.free.of_guards (Schema.guards_of_split hfields)
      have hpath := (restored_of_checkFields hearlier).path
      have hfound : ∀ {u}, (w₂.store.entriesOf v).find? k = some u →
          Leads env mode f (_ ++ [k]) u := fun hfind =>
        .down hg.reaches hg.leads hafter (Store.child?_of_find? hfind)
      cases hhanded with
      | present hfind =>
          refine .inl ⟨hreaches, ?_, hfree, hstands⟩
          simpa only [Context.push_path, hpath, Context.path_mark] using hfound hfind
      | absent hfind haccepts =>
          cases hagain : (w₂.store.entriesOf v).find? k with
          | some u =>
              refine .inl ⟨by simpa only [hagain] using hreaches, ?_, hfree, hstands⟩
              simpa only [Context.push_path, hpath, Context.path_mark, Option.getD_some]
                using hfound hagain
          | none =>
              refine .inr fun r c' w' hrun => ?_
              have hbefore := (Carry.of_checkFields hset _ hearlier).2 hg.stands
              exact (eq_of_accepted henv.builds hmay hfree hbefore haccepts hrun).2
  | element harray hfresh hmore hearlier hitem =>
      refine .inl ⟨hreaches, ?_, hg.free.of_guards .element, hstands⟩
      have hpath := (restored_of_firstItems hearlier).path
      simp only [Context.push_path, hpath, Context.path_mark]
      exact .down hg.reaches hg.leads hafter (Store.child?_of_getElem? hitem)
  | option hoptions hearlier =>
      have hpath := (restored_of_tryMembers hearlier).path
      refine .inl ⟨hreaches, ?_, hg.free.of_passes (.option ?_), hstands⟩
      · simpa [Context.fork, hpath] using hg.leads
      · simp [hoptions]
  | member hmembers hearlier =>
      have hpath := (restored_of_tryMembers hearlier).path
      refine .inl ⟨hreaches, ?_, hg.free.of_passes (.member ?_), hstands⟩
      · simpa [Context.fork, hpath] using hg.leads
      · simp [hmembers]
  | optional => exact .inl ⟨hreaches, hg.leads, hg.free.of_passes .optional, hstands⟩
  | nullable => exact .inl ⟨hreaches, hg.leads, hg.free.of_passes .nullable, hstands⟩
  | copy => exact absurd .refl (hg.free _ _)
  | withDefault => exact absurd .refl (hg.free _ _)
  | transform => exact .inl ⟨hreaches, hg.leads, hg.free.of_passes .transform, hstands⟩
  | refine => exact .inl ⟨hreaches, hg.leads, hg.free.of_passes .refine, hstands⟩
  | deferred hresolve =>
      have hfree := hmay _ _ (hstands _ _ (standing_of_resolve hresolve))
      exact .inl ⟨hreaches, hg.leads, hfree, hstands⟩

/-- If the containers of the value stay as they are, a path leads to what stands at
its end. -/
theorem Leads.at? {st : Store} {v u : Value}
    (hkeeps : env.Keeps (st.Unchanged v)) (hworld : st.Unchanged v f.world) (hvalue : f.value = v)
    (hpath : f.context.path = []) (h : f.Leads env mode p u) : st.at? v p = some u := by
  induction h with
  | root =>
      rw [hpath, hvalue]
      rfl
  | @down g k u w hreaches _ hafter hchild ih =>
      have hsubset := Store.references_subset_of_reaches (Store.reaches_of_at? ih)
      have hsame := hafter _ hkeeps (keeps_of_reaches hkeeps hreaches hworld)
      rw [hsame.child?_eq hsubset] at hchild
      rw [Store.at?_concat, ih]
      exact hchild

end Call

theorem Store.Unchanged.kindName_eq {σ : Type} {st : Store} {v u : Value} {w : World σ}
    (hw : st.Unchanged v w) (hu : st.references u ⊆ st.references v) :
    w.store.kindName u = st.kindName u := by
  unfold Store.kindName
  rw [hw.contents?_eq hu]

/-- Where an error stands in a value: at what its path leads to, and then with the
kind of that if it gives one, or at a key that a mapping lacks, which it says. -/
inductive ErrorRecord.StandsIn (st : Store) (v : Value) (x : ErrorRecord) : Prop
  | value {u : Value} (hplace : st.at? v x.path = some u)
      (hrequired : x.code = .builtin .required → x.details = none)
      (hkind : x.code = .builtin .invalidType → ∀ ds, x.details = some ds →
        ∃ expected, ds = kindDetails expected (st.kindName u))
  | key {p : Path} {k : Key} {u : Value} {entries : Entries Value} (hpath : x.path = p ++ [k])
      (hplace : st.at? v p = some u) (hentries : st.entries? u = some entries)
      (habsent : entries.find? k = none) (hcode : x.code = .builtin .required)

theorem Call.Sits.standsIn {σ : Type} {env : Setting σ} {mode : Mode} {f : Call σ} {st : Store}
    {v : Value} {x : ErrorRecord}
    (hkeeps : env.Keeps (st.Unchanged v)) (hworld : st.Unchanged v f.world) (hvalue : f.value = v)
    (hpath : f.context.path = []) (h : f.Sits env mode x) : x.StandsIn st v := by
  cases h with
  | @value g hreaches hleads hrequired hkind =>
      have hplace := hleads.at? hkeeps hworld hvalue hpath
      have hsubset := Store.references_subset_of_reaches (Store.reaches_of_at? hplace)
      refine .value hplace hrequired fun hcode ds hds => ?_
      rw [← (keeps_of_reaches hkeeps hreaches hworld).kindName_eq hsubset]
      exact hkind hcode ds hds
  | @key g k w hreaches hleads hkey hobject hafter habsent hcode =>
      have hplace := hleads.at? hkeeps hworld hvalue hpath
      have hsubset := Store.references_subset_of_reaches (Store.reaches_of_at? hplace)
      have hsame := keeps_of_reaches hkeeps hreaches hworld
      rw [hsame.entries?_eq hsubset] at hobject
      have hentries := Store.entries?_of_isNone hobject
      rw [Store.entriesOf, (hafter _ hkeeps hsame).entries?_eq hsubset,
        ← Store.entriesOf] at habsent
      exact .key hkey hplace hentries habsent hcode

/-- A world in which nothing is shared. -/
def unshared : World Unit where
  host := ()

end Conform
