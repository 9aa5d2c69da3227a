import Conform.Proofs.Places
import Conform.Proofs.Provenance
import Conform.Proofs.Wording

/-!
# Where the words of an error come from

Every error of a run was told by one of its calls, or by a rule. What it says comes
from one of four places. Words that the schema of the call has for the violated check
go before everything else. If it has none, the template that is in force for the code
gives the words, from the details of the very error and from the store as it is when
the error is found. A callback words its own errors. And a text that writes a number
has words for a value that is no text which no template replaces: these are the only
words of the library's own that do not ask for a template.

How the store was when an error was found is told by what the host keeps: a property of
worlds that the host keeps and that holds at the start holds then. With a host that
leaves the store alone, it is the store at the start.

## Main results

* `Call.Reports.phrased` — the own words of a violation that is reported are those of
  the schema, with one exception.
* `Validate.Found.phrased` — where the words of an error in the refusal of a whole value
  come from.
* `template_governs` — so the template in force gives them, but for those exceptions.
* `integerText_bypasses_template` — what the last of them looks like.
-/

namespace Conform

open Traverse

/-! ## Own words -/

/-- The words that a schema has of its own for the violation of a check. -/
def Schema.wordsFor : Schema → BuiltinCode → Option String
  | .string checks, .stringMin => checks.min.bind Check.own
  | .string checks, .stringMax => checks.max.bind Check.own
  | .string checks, .stringLength => checks.length.bind Check.own
  | .string checks, .stringPattern => checks.pattern.bind Check.own
  | .string checks, .stringEmail => checks.email.bind Check.own
  | .string checks, .stringUrl => checks.url.bind Check.own
  | .number checks, .numberMin => checks.min.bind Check.own
  | .number checks, .numberMax => checks.max.bind Check.own
  | .number checks, .numberInt => checks.int.bind Check.own
  | .number checks, .numberPositive => checks.positive.bind Check.own
  | .number checks, .numberNegative => checks.negative.bind Check.own
  | .number checks, .numberFinite => checks.finite.bind Check.own
  | .date checks, .dateMin => checks.min.bind Check.own
  | .date checks, .dateMax => checks.max.bind Check.own
  | .array _ bounds, .arrayMin => bounds.min.bind Check.own
  | .array _ bounds, .arrayMax => bounds.max.bind Check.own
  | .array _ bounds, .arrayLength => bounds.length.bind Check.own
  | _, _ => none

/-- What a schema for texts that write numbers says of a value that is no text. -/
def Schema.unread? : Schema → Option String
  | .integerText => some "Expected string for integer parsing"
  | .decimalText => some "Expected string for float parsing"
  | _ => none

/-- A violation has the words for it that its schema has, and no others. -/
def Schema.Words (s : Schema) (x : Violation) : Prop := x.own = s.wordsFor x.code

theorem words_of_judgeString {checks : StringChecks} {st : Store} {v : Value} {x : Violation}
    (h : checks.judge st v = .ok (.violated x)) : (Schema.string checks).Words x := by
  unfold StringChecks.judge at h
  split at h
  · have hmem := mem_of_ofClauses h
    simp only [List.mem_cons, List.not_mem_nil, or_false] at hmem
    rcases hmem with h | h | h | h | h | h <;>
    · obtain ⟨check, hcheck, rfl⟩ := exists_of_clause h.symm
      simp only [Schema.Words, lengthViolation, Schema.wordsFor, hcheck, Option.bind_some]
  · cases h
    rfl

theorem words_of_judgeNumber {checks : NumberChecks} {st : Store} {v : Value} {x : Violation}
    (h : checks.judge st v = .ok (.violated x)) : (Schema.number checks).Words x := by
  unfold NumberChecks.judge at h
  split at h
  · split at h
    · unfold NumberChecks.judgeNumber at h
      split at h
      · cases h
        rfl
      · have hmem := mem_of_ofClauses h
        simp only [List.mem_cons, List.not_mem_nil, or_false] at hmem
        rcases hmem with h | h | h | h | h | h <;>
        · obtain ⟨check, hcheck, rfl⟩ := exists_of_clause h.symm
          simp only [Schema.Words, boundViolation, traitViolation, Schema.wordsFor, hcheck,
            Option.bind_some]
    · cases h
      rfl
  · cases h
    rfl

theorem words_of_judgeDate {checks : DateChecks} {st : Store} {v : Value} {x : Violation}
    (h : checks.judge st v = .ok (.violated x)) : (Schema.date checks).Words x := by
  unfold DateChecks.judge at h
  dsimp only at h
  split at h
  · split at h
    · have hmem := mem_of_ofClauses h
      simp only [List.mem_cons, List.not_mem_nil, or_false] at hmem
      rcases hmem with h | h <;>
      · obtain ⟨check, hcheck, rfl⟩ := exists_of_clause h.symm
        simp only [Schema.Words, momentViolation, Schema.wordsFor, hcheck, Option.bind_some]
    · cases h
      rfl
  · cases h
    rfl

/-- A text that does not write a number is reported without own words, a value that is no
text with words that name what the text should write. -/
theorem own_of_judgeWritten {read : String → Option Value} {code : BuiltinCode} {what : String}
    {st : Store} {v : Value} {x : Violation} (h : judgeWritten read code what st v = .violated x) :
    x.own = none ∨
      x.code = .invalidType ∧ x.own = some ("Expected string for " ++ what ++ " parsing") := by
  unfold judgeWritten at h
  split at h
  · split at h
    · cases h
    · cases h
      exact .inl rfl
  · cases h
    exact .inr ⟨rfl, rfl⟩

/-- A violation has the words of the schema, or those for a value that is no text where
one is asked for that writes a number. -/
def Schema.Phrased (s : Schema) (x : Violation) : Prop :=
  s.Words x ∨ x.code = .invalidType ∧ ∃ words, s.unread? = some words ∧ x.own = some words

theorem phrased_of_judge? {s : Schema} {st : Store} {v : Value} {x : Violation}
    (h : s.judge? st v = some (.ok (.violated x))) : s.Phrased x := by
  cases s with
  | string checks => exact .inl (words_of_judgeString (Option.some.inj h))
  | number checks => exact .inl (words_of_judgeNumber (Option.some.inj h))
  | date checks => exact .inl (words_of_judgeDate (Option.some.inj h))
  | boolean =>
      simp only [Schema.judge?, judgeBoolean, Option.some.injEq, Except.ok.injEq] at h
      split at h
      · cases h
      · cases h
        exact .inl rfl
  | enumeration first rest =>
      simp only [Schema.judge?, Option.some.injEq, Except.ok.injEq] at h
      unfold judgeMember at h
      extract_lets found at h
      split at h
      · cases h
      · cases h
        exact .inl rfl
  | integerText =>
      simp only [Schema.judge?, Option.some.injEq, Except.ok.injEq] at h
      rcases own_of_judgeWritten h with hown | ⟨hcode, hown⟩
      · exact .inl hown
      · exact .inr ⟨hcode, _, rfl, hown⟩
  | decimalText =>
      simp only [Schema.judge?, Option.some.injEq, Except.ok.injEq] at h
      rcases own_of_judgeWritten h with hown | ⟨hcode, hown⟩
      · exact .inl hown
      · exact .inr ⟨hcode, _, rfl, hown⟩
  | _ => cases h

namespace Call

variable {σ : Type} {f g : Call σ} {w₁ : World σ} {x : Violation} {p : Path}

/-- A violation that is reported has the words of the schema of the call, or those for a
value that is no text where one is asked for that writes a number. -/
theorem Reports.phrased (h : g.Reports w₁ x p) : g.schema.Phrased x := by
  cases h with
  | bound hitems hfresh hx =>
      simp only [violatedBounds, List.mem_append, Option.mem_toList, Option.map_eq_some_iff,
        Option.filter_eq_some_iff] at hx
      rcases hx with (⟨c, ⟨hc, -⟩, rfl⟩ | ⟨c, ⟨hc, -⟩, rfl⟩) | ⟨c, ⟨hc, -⟩, rfl⟩ <;>
        exact .inl (by simp only [Schema.Words, countViolation, Schema.wordsFor, hc,
          Option.bind_some])
  | judged h => exact phrased_of_judge? h
  | _ => exact .inl rfl

/-! ## Phrasing -/

/-- How an error that a call tells came by its words, if the run began in a world. -/
inductive Phrases (env : Setting σ) (w : World σ) (g : Call σ) : ErrorRecord → Prop
  /-- By the template in force, or by the default if there is none. -/
  | template {p code details words w₁ message} (hown : g.schema.wordsFor code = none)
      (hafter : env.After w w₁)
      (hformat : env.catalog.format env.scope w₁.store (Code.builtin code).text words details =
        .ok message) :
      Phrases env w g ⟨p, some message, .builtin code, details⟩
  /-- By the schema. -/
  | schema {p code details words} (hown : g.schema.wordsFor code = some words) :
      Phrases env w g ⟨p, some words, .builtin code, details⟩
  /-- By the library itself, where a text is asked for that writes a number. -/
  | unread {p words details} (hunread : g.schema.unread? = some words) :
      Phrases env w g ⟨p, some words, .builtin .invalidType, details⟩
  /-- By a callback. -/
  | callback {code words} (hwords : g.Words code) :
      Phrases env w g ⟨g.context.path, words, code, none⟩

end Call

section Phrasing

variable {σ : Type} {env : Setting σ} {mode : Mode} {f g : Call σ}

/-- The words of a violated check are its own if it has any, else those of the template in
force. -/
theorem own_or_format_of_message {x : Violation} {st : Store} {message : String}
    (h : x.message env st = .ok message) :
    x.own = some message ∨ x.own = none ∧ ∃ words,
      env.catalog.format env.scope st (Code.builtin x.code).text words x.details =
        .ok message := by
  unfold Violation.message at h
  split at h
  · cases h
  · rename_i words _
    split at h
    · rename_i own hown
      cases h
      exact .inl hown
    · rename_i hown
      exact .inr ⟨hown, words, h⟩

/-- An error for a violation is phrased by who reports it, if it is so when it is added. -/
theorem Call.phrases_of_phrased {x : Violation} {p : Path} {message : String} {w w₁ : World σ}
    (hafter : env.After w w₁) (hphrased : g.schema.Phrased x)
    (h : x.message env w₁.store = .ok message) :
    g.Phrases env w ⟨p, some message, .builtin x.code, x.details⟩ := by
  rcases hphrased with hwords | ⟨hcode, words, hunread, hown⟩
  · have hwords : x.own = g.schema.wordsFor x.code := hwords
    rcases own_or_format_of_message h with hmessage | ⟨hnone, words, hformat⟩
    · exact .schema (hwords.symm.trans hmessage)
    · exact .template (hwords.symm.trans hnone) hafter hformat
  · rcases own_or_format_of_message h with hmessage | ⟨hnone, -⟩
    · obtain rfl : words = message := Option.some.inj (hown.symm.trans hmessage)
      exact hcode ▸ .unread hunread
    · rw [hown] at hnone
      cases hnone

/-- What a call of a run adds is told and phrased by it, and so are the failures of its
attempts if what these added is. -/
theorem phrasing_settings {w : World σ} {Q : ErrorRecord → Prop} (hafter : env.After w g.world)
    (h : ∀ e, g.Tells env e → g.Phrases env w e → Q e) : (telling σ Q).Settings env mode g where
  apart _ := trivial
  judged _ := trivial
  asked _ _ _ := trivial
  resolved _ _ := trivial
  uncopied _ _ _ := trivial
  violation {x c _} hreports hfound w₁ hw₁ := .of_addError fun u c' w' hrun => by
    obtain ⟨message, hmessage, rfl, -⟩ := Engine.runIn_addViolation_ok_iff.mp hrun
    refine ⟨_, rfl, fun y hy => ?_⟩
    rw [ErrorRecord.eq_of_holds_of_plain hreports.plain hy]
    exact h _ (.violation hreports hfound)
      (Call.phrases_of_phrased ((hafter.trans hfound).trans hw₁) hreports.phrased hmessage)
  failures {x name c} hfails hpath w₁ hw₁ groups groups' hgroups :=
    .of_addError fun u c' w' hrun => by
      obtain ⟨message, hmessage, rfl, -⟩ := Engine.runIn_addViolation_ok_iff.mp hrun
      refine ⟨_, rfl, fun y hy => ?_⟩
      rcases hy.cases_head with rfl | ⟨z, hz, hy⟩
      · have hphrased : g.schema.Phrased { x with details := failuresDetail name groups } := by
          cases hfails <;> exact .inl rfl
        rw [hpath]
        exact h _ (.failures (x := x) hfails)
          (Call.phrases_of_phrased (hafter.trans hw₁) hphrased hmessage)
      · obtain ⟨group, hgroup, hz⟩ := ErrorRecord.gives_failuresDetail_iff.mp hz
        have htold := forall_of_forall₂ (hgroups.imp fun _ _ => forall_of_forall₂)
        exact htold group hgroup z hz y hy
  worded {code c} hwords hpath w₁ words := .of_addError fun u c' w' hrun => by
    cases hrun
    refine ⟨_, rfl, fun y hy => ?_⟩
    rw [ErrorRecord.eq_of_holds_of_plain (fun ds hds => by cases hds) hy, hpath]
    exact h _ (.worded hwords) (.callback hwords)

/-- Every error that a run adds, if it ends by a value, holds only what is told and phrased
by a call of the run. -/
theorem Call.telling_phrases (f : Call σ) :
    (telling σ fun x => ∃ g, Reaches env mode f g ∧ g.Tells env x ∧
      g.Phrases env f.world x).Walks env mode f :=
  Pairing.walks fun g hg => phrasing_settings
    (fun _ hkeeps hw => keeps_of_reaches hkeeps hg hw) fun _ htells hx => ⟨g, hg, htells, hx⟩

variable {depth : Nat} {s : Schema} {v : Value} {w : World σ}

/-- What stands in the refusal of a whole value is told and phrased by a call of the check,
or is an error of a rule, which is at the root and has no details. -/
theorem Validate.Found.phrased {x : ErrorRecord} (h : Found env mode depth s v w x) :
    (∃ g, Call.Reaches env mode ⟨depth, s, v, {}, w⟩ g ∧ g.Tells env x ∧ g.Phrases env w x) ∨
      ∃ rule ∈ env.rules, ∃ words, x = ⟨[], words, ruleCode rule, none⟩ := by
  refine h.of_telling (Q := fun x =>
    (∃ g, Call.Reaches env mode ⟨depth, s, v, {}, w⟩ g ∧ g.Tells env x ∧ g.Phrases env w x) ∨
      ∃ rule ∈ env.rules, ∃ words, x = ⟨[], words, ruleCode rule, none⟩) ?_ ?_
  · intro r c w' hrun
    obtain ⟨hr, es, hes, htold⟩ := Call.telling_phrases ⟨depth, s, v, {}, w⟩ r c w' hrun
    exact ⟨hr, es, hes, fun e he y hy => .inl (htold e he y hy)⟩
  · exact fun rule hrule words => .inr ⟨rule, hrule, words, rfl⟩

/-- The template that is in force for a code governs the words of its errors. Every error
of the code in the refusal of a whole value, however deep, was told by a call of the check
or by a rule. If the schema of the call has no words of its own for the violated check, the
message is what the template gives for the details of the error, in the store as it was
when the error was found: any property of the world that the host keeps and that held at
the start held then. The exceptions are the errors of callbacks and of rules, which have
no details, and a value that is no text where one is asked for that writes a number. -/
theorem template_governs {code : BuiltinCode} {t : Template} {x : ErrorRecord}
    (hfind : env.catalog.find? env.scope code.text = some t)
    (hfound : Validate.Found env mode depth s v w x) (hcode : x.code.text = code.text) :
    (∃ g, Call.Reaches env mode ⟨depth, s, v, {}, w⟩ g ∧ g.Tells env x ∧
      ((g.schema.wordsFor code = none ∧ ∃ w₁, env.After w w₁ ∧
          ∃ message, t.render w₁.store x.details = .ok message ∧ x.message = some message) ∨
        (∃ words, g.schema.wordsFor code = some words ∧ x.message = some words) ∨
        (code = .invalidType ∧ ∃ words, g.schema.unread? = some words ∧ x.message = some words) ∨
        (g.Words x.code ∧ x.details = none))) ∨
      ∃ rule ∈ env.rules, x.code = Validate.ruleCode rule ∧ x.path = [] ∧ x.details = none := by
  rcases hfound.phrased with ⟨g, hreaches, htells, hphrases⟩ | ⟨rule, hrule, words, rfl⟩
  · refine .inl ⟨g, hreaches, htells, ?_⟩
    cases hphrases with
    | template hown hafter hformat =>
        obtain rfl := BuiltinCode.text_injective hcode
        rw [Code.text, Catalog.format, hfind] at hformat
        exact .inl ⟨hown, _, hafter, _, hformat, rfl⟩
    | schema hown =>
        obtain rfl := BuiltinCode.text_injective hcode
        exact .inr (.inl ⟨_, hown, rfl⟩)
    | unread hunread =>
        have hsame : BuiltinCode.invalidType.text = code.text := hcode
        obtain rfl := BuiltinCode.text_injective hsame
        exact .inr (.inr (.inl ⟨rfl, _, hunread, rfl⟩))
    | callback hwords => exact .inr (.inr (.inr ⟨hwords, rfl⟩))
  · exact .inr ⟨rule, hrule, rfl, rfl, rfl⟩

end Phrasing

/-- The template for values of the wrong kind, filled in. -/
theorem render_kindCatalog (st : Store) (expected : String) :
    (Template.text "got \x7b\x7breceived\x7d\x7d").render st
      (some (kindDetails expected "number")) = .ok "got number" := by
  cbv

/-- The records that a record gives. -/
def ErrorRecord.given (e : ErrorRecord) : List ErrorRecord :=
  (e.details.getD []).flatMap fun d =>
    match d.2 with
    | .failures groups => groups.flatten
    | .value _ => []

theorem ErrorRecord.gives_of_mem_given {e x : ErrorRecord} (h : x ∈ e.given) : Gives e x := by
  obtain ⟨⟨name, d⟩, hd, hx⟩ := List.mem_flatMap.mp h
  cases hdetails : e.details with
  | none =>
      rw [hdetails] at hd
      cases hd
  | some ds =>
      rw [hdetails] at hd
      cases d with
      | value u => cases hx
      | failures groups =>
          obtain ⟨group, hgroup, hx⟩ := List.mem_flatten.mp hx
          exact ⟨ds, hdetails, name, groups, hd, group, hgroup, hx⟩

/-- The errors of an outcome. -/
def Outcome.errors : Outcome → List ErrorRecord
  | .accepted _ => []
  | .refused es => es

/-- What the errors of an outcome give stands in the refusal. -/
theorem Validate.found_of_mem_given {entry : Entry} {e x : ErrorRecord}
    (he : e ∈ (((immediate env depth entry s v).runIn w).1.toOption.map Outcome.errors).getD [])
    (hx : x ∈ e.given) : Found env .immediate depth s v w x := by
  rcases hrun : (immediate env depth entry s v).runIn w with ⟨_ | _ | es, w'⟩
  · rw [hrun] at he
    cases he
  · rw [hrun] at he
    cases he
  · rw [hrun] at he
    exact ⟨es, ⟨entry, w', hrun⟩, e, he, .single (ErrorRecord.gives_of_mem_given hx)⟩

theorem found_listsOrText : ∃ x,
    Validate.Found (idleHost.worded kindCatalog optionsScope) .immediate 3 listsOrText
      (.list [.int 5]) { host := () } x ∧
    x.code = .builtin .invalidType ∧ x.message = some "got number" ∧ x.details ≠ none := by
  have hgiven : ∃ e ∈ (((Validate.immediate (idleHost.worded kindCatalog optionsScope) 3
      .safeParse listsOrText (.list [.int 5])).runIn { host := () }).1.toOption.map
        Outcome.errors).getD [],
      ∃ x ∈ e.given, x.code = .builtin .invalidType ∧ x.message = some "got number" ∧
        x.details.isSome = true := by decide +kernel
  obtain ⟨e, he, x, hx, hcode, hmessage, hdetails⟩ := hgiven
  exact ⟨x, Validate.found_of_mem_given he hx, hcode, hmessage,
    Option.isSome_iff_ne_none.mp hdetails⟩

/-- The number in the list is reported with the words of the template for its kind. -/
theorem template_governs_listsOrText :
    kindCatalog.find? optionsScope BuiltinCode.invalidType.text =
        some (.text "got \x7b\x7breceived\x7d\x7d") ∧
      ∃ x, Validate.Found (idleHost.worded kindCatalog optionsScope) .immediate 3 listsOrText
          (.list [.int 5]) { host := () } x ∧ x.code = .builtin .invalidType ∧
        x.message = some "got number" ∧
        ∃ w₁, (idleHost.worded kindCatalog optionsScope).After { host := () } w₁ ∧
          (Template.text "got \x7b\x7breceived\x7d\x7d").render w₁.store x.details =
            .ok "got number" := by
  have hfind : kindCatalog.find? optionsScope BuiltinCode.invalidType.text =
    some (.text "got \x7b\x7breceived\x7d\x7d") := rfl
  obtain ⟨x, hfound, hcode, hgot, hdetails⟩ := found_listsOrText
  refine ⟨hfind, x, hfound, hcode, hgot, ?_⟩
  rcases template_governs hfind hfound (by rw [hcode]; rfl) with ⟨g, -, -, hwords⟩ | ⟨-, -, -, -, h⟩
  · rcases hwords with ⟨-, w₁, hafter, message, hrender, hmessage⟩ | ⟨words, hown, -⟩ |
      ⟨-, words, hunread, hmessage⟩ | ⟨-, hnone⟩
    · exact ⟨w₁, hafter, Option.some.inj (hmessage.symm.trans hgot) ▸ hrender⟩
    · cases hschema : g.schema <;> simp [hschema, Schema.wordsFor] at hown
    · obtain rfl := Option.some.inj (hgot.symm.trans hmessage)
      cases hschema : g.schema <;> simp [hschema, Schema.unread?] at hunread
    · exact absurd hnone hdetails
  · exact absurd h hdetails

/-- The exception: a number where a text is asked for that writes an integer. The template
in force would give other words for the details of the error, and the schema has none of
its own. -/
theorem integerText_bypasses_template :
    (Validate.immediate (idleHost.worded kindCatalog .empty) 1 .safeParse .integerText
        (.int 5)).runIn { host := () } =
      (.ok (.refused [⟨[], some "Expected string for integer parsing", .builtin .invalidType,
        some (kindDetails "string" "number")⟩]), { host := () }) ∧
    Schema.integerText.wordsFor .invalidType = none ∧
    kindCatalog.find? .empty BuiltinCode.invalidType.text =
      some (.text "got \x7b\x7breceived\x7d\x7d") ∧
    ∀ st, (Template.text "got \x7b\x7breceived\x7d\x7d").render st
      (some (kindDetails "string" "number")) = .ok "got number" :=
  ⟨rfl, rfl, rfl, fun st => render_kindCatalog st "string"⟩

end Conform
