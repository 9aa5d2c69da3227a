import Conform.Proofs.Clearing
import Conform.Proofs.Cascade
import Conform.Proofs.Ruling

/-!
# What the document of a text schema says of texts

A row of calls puts checks on the schema of texts, of each kind the last one. The document holds
the bounds of the lengths and the text of the pattern, but not the flags that the pattern was
given with. Who reads the document reads the text of the pattern with no flags. The flags are
those of `Pattern.Flags`, none of which changes how a pattern is read; a flag that lets blanks and
comments be written into a pattern is not among them.

So the bounds admit every text that the schema accepts. The text of the pattern can always be
read, and read with the flags of the check it has a match in such a text. Read with no flags it
may have none.

## Main results

* `Pattern.read_flags` — how a pattern is read does not depend on its flags.
* `exported_keywords_admit_texts` — what each keyword says of a text that is accepted.
* `flags_not_exported` — a text that is accepted, and that the exported pattern excludes.
-/

namespace Conform

open Traverse Validate

/-- A pattern is read in the same way with other flags. -/
theorem Pattern.read_flags {source : String} {f : Flags} {p : Pattern}
    (h : Pattern.read source f = .ok p) (f' : Flags) :
    p.source = source ∧ p.flags = f ∧ Pattern.read source f' = .ok { p with flags := f' } := by
  simp only [Pattern.read] at h ⊢
  cases hread : readAlternatives (2 * source.toList.length + 2) [] source.toList with
  | error refusal =>
      rw [hread] at h
      cases h
  | ok outcome =>
      obtain ⟨node, names, rest⟩ := outcome
      simp only [hread, bind, Except.bind] at h ⊢
      split at h
      · rename_i hrest
        cases h
        exact ⟨rfl, rfl, if_pos hrest⟩
      · cases h

namespace TextCall

/-- The pattern of a call is one that was read, with any flags. -/
def Reads : TextCall → Prop
  | pattern p _ => Pattern.read p.source p.flags = .ok p
  | _ => True

variable {calls : List TextCall}

theorem int_of_bound {c : Check Value} (h : (checks calls).min = some c ∨
    (checks calls).max = some c ∨ (checks calls).length = some c) : ∃ n, c.value = .int n := by
  have hcheck : ∀ k, (lastCall code calls k).bind lengthCheck = some c → ∃ n, c.value = .int n := by
    intro k hk
    obtain ⟨call, -, hcall⟩ := Option.bind_eq_some_iff.mp hk
    cases call <;> cases hcall <;> exact ⟨_, rfl⟩
  rcases h with h | h | h <;> exact hcheck _ h

theorem lastCall_of_pattern {c : Check Sought} (h : (checks calls).pattern = some c) :
    ∃ p words, c = ⟨.text p, words⟩ ∧
      lastCall code calls .stringPattern = some (.pattern p words) := by
  obtain ⟨call, hlast, hcall⟩ := Option.bind_eq_some_iff.mp h
  cases call <;> cases hcall
  exact ⟨_, _, rfl, hlast⟩

theorem mem_of_lastCall {k : BuiltinCode} {call : TextCall}
    (h : lastCall code calls k = some call) : call ∈ calls :=
  List.mem_reverse.mp (List.mem_of_find?_eq_some h)

/-- Each keyword of the document but the pattern admits a text that the checks accept. The
pattern is the text of the last one, which has a match. -/
theorem keyword_of_accepted {st : Store} {t : String} {r : Value} {k : Keyword}
    (h : (checks calls).judge st (.text t) = .ok (.accepted r)) (hk : k ∈ (checks calls).document) :
    ((∀ source, k ≠ .pattern source) ∧ k.Admits st (.text t)) ∨ ∃ p words,
      lastCall code calls .stringPattern = some (.pattern p words) ∧ k = .pattern (.text p.source) ∧
        p.search t = true := by
  refine (keyword_of_judge (fun _ => int_of_bound) h hk).imp_right ?_
  rintro ⟨c, p, s, hc, hp, rfl, hs, hsearch⟩
  cases hs
  obtain ⟨q, words, rfl, hlast⟩ := lastCall_of_pattern hc
  cases hp
  exact ⟨_, _, hlast, rfl, hsearch⟩

/-- By itself, the text of the last pattern is read as that pattern without flags. -/
theorem read_of_lastCall (hreads : ∀ call ∈ calls, call.Reads) {p : Pattern} {words : Option String}
    (hlast : lastCall code calls .stringPattern = some (.pattern p words)) (t : String) :
    Pattern.read p.source {} = .ok { p with flags := {} } ∧
      Pattern.matchesIn p.source t = Pattern.search { p with flags := {} } t := by
  obtain ⟨-, -, hplain⟩ := Pattern.read_flags (hreads _ (mem_of_lastCall hlast)) {}
  exact ⟨hplain, by rw [Pattern.matchesIn, hplain]⟩

end TextCall

/-- A bound of a length that is kept is a whole number. -/
theorem exists_int_of_any {bound : Value} {holds : Int → Bool} (h : bound.int?.any holds = true) :
    ∃ n : Int, bound = .int n ∧ holds n = true := by
  obtain ⟨n, hn, hholds⟩ := Option.any_eq_true _ _ |>.mp h
  refine ⟨n, ?_, hholds⟩
  unfold Value.int? at hn
  split at hn
  · cases hn
    rfl
  · cases hn

/-- Without rules, a text is accepted as it is if the checks of all calls that count hold. -/
theorem texts_accepted {σ : Type} {env : Setting σ} (hrules : env.rules = [])
    {calls : List TextCall} {t : String} (h : ∀ call ∈ texts.inForce calls, call.Holds t)
    (depth : Nat) (w : World σ) :
    Gives env .immediate (depth + 1) (.string (TextCall.checks calls)) (.text t) w
      (.accepted (.text t)) := by
  have hjudged := lawful_texts.judge?_eq calls t w.store
  rw [(texts.broken_eq_none_iff calls t).mpr h] at hjudged
  have hpresent : ∀ r, Judgement.accepted (.text t) = .accepted r → isMissing r = false := by
    rintro r ⟨⟩
    rfl
  have haccepted : (validate env .immediate (depth + 1) .safeParse _ _).runIn w = (.ok _, w) :=
    (validate_accepted_iff .safeParse hrules hjudged hpresent).mpr ⟨rfl, rfl⟩
  exact ⟨.safeParse, w, haccepted⟩

open TextCall in
/-- **What the document of a text schema says of the texts that the schema accepts.** Every such
text has the lengths that the document asks for. The pattern of the document is the text of the
last pattern that was given. It can be read by itself, and has a match in the text if it is read
with the flags that it was given with; whether it has one by itself is whether the pattern that
was given has one without its flags. If it was given with none, the whole document admits the
text. -/
theorem exported_keywords_admit_texts (calls : List TextCall) (hreads : ∀ call ∈ calls, call.Reads)
    (st : Store) :
    ∃ s d, Base.text.chain st (calls.map constraint) = .ok s ∧
      ∀ {σ : Type} (env : Setting σ) (depth : Nat) (w : World σ),
        (env.exportSchema (depth + 1) s).runIn w = (.ok d, w) ∧
        ∀ (mode : Mode) (t : String) (u : Value),
          Gives env mode depth s (.text t) w (.accepted u) →
          (∀ bound, .minLength bound ∈ d → ∃ n : Int, bound = .int n ∧ n ≤ t.length) ∧
          (∀ bound, .maxLength bound ∈ d → ∃ n : Int, bound = .int n ∧ t.length ≤ n) ∧
          (∀ source, .pattern source ∈ d → ∃ p words, source = .text p.source ∧
            lastCall code calls .stringPattern = some (.pattern p words) ∧
            Pattern.read p.source p.flags = .ok p ∧ p.search t = true ∧
            Pattern.read p.source {} = .ok { p with flags := {} } ∧
            Pattern.matchesIn p.source t = Pattern.search { p with flags := {} } t) ∧
          ((∀ p words, lastCall code calls .stringPattern = some (.pattern p words) →
            p.flags = {}) → d.admits w.store (.text t) = true) := by
  refine ⟨.string (checks calls), (checks calls).document, lawful_texts.chain_eq calls st,
    fun env depth w => ⟨rfl, fun mode t u hgives => ?_⟩⟩
  obtain ⟨r, hclears, -⟩ := clears_of_accepted hgives
  have hjudged : (checks calls).judge w.store (.text t) = .ok (.accepted r) := by
    cases Call.clearing_of_clears hclears with
    | single h => exact Option.some.inj h
    | inner h hwraps => cases hwraps
  refine ⟨fun bound hk => ?_, fun bound hk => ?_, fun source hk => ?_, fun hflags => ?_⟩
  · rcases keyword_of_accepted hjudged hk with ⟨-, -, h⟩ | ⟨p, words, -, h, -⟩
    · exact (exists_int_of_any (h [])).imp fun _ h => ⟨h.1, of_decide_eq_true h.2⟩
    · cases h
  · rcases keyword_of_accepted hjudged hk with ⟨-, -, h⟩ | ⟨p, words, -, h, -⟩
    · exact (exists_int_of_any (h [])).imp fun _ h => ⟨h.1, of_decide_eq_true h.2⟩
    · cases h
  · rcases keyword_of_accepted hjudged hk with ⟨hother, -⟩ | ⟨p, words, hlast, heq, hsearch⟩
    · exact absurd rfl (hother source)
    · cases heq
      exact ⟨p, words, rfl, hlast, hreads _ (mem_of_lastCall hlast), hsearch,
        read_of_lastCall hreads hlast t⟩
  · refine Document.admits_iff.mpr fun k hk => ?_
    rcases keyword_of_accepted hjudged hk with ⟨-, -, h⟩ | ⟨p, words, hlast, rfl, hsearch⟩
    · exact h _
    · -- the pattern itself is what is left of it without flags
      have hplain : ({ p with flags := {} } : Pattern) = p := by
        rw [← hflags p words hlast]
      show Pattern.matchesIn p.source t = true
      rw [(read_of_lastCall hreads hlast t).2, hplain, hsearch]

/-- A pattern for texts that start with a letter. -/
def startsWithA : Pattern := ⟨"^a", {}, .seq (.anchor .lineStart) (.char 'a')⟩

/-- Two bounds and a pattern, given with no flags: the document admits a text that has them all. -/
theorem exported_keywords_admit_texts_bounded :
    ∃ s d, Base.text.chain {} [.min (.int 1) none, .max (.int 5) none,
        .pattern (.ok (.text startsWithA)) none] = .ok s ∧
      (idleHost.exportSchema 1 s).runIn { host := () } = (.ok d, { host := () }) ∧
      d.admits {} (.text "ab") = true := by
  have hreads : ∀ call ∈ [TextCall.min 1 none, .max 5 none, .pattern startsWithA none],
      call.Reads := by
    simp only [List.forall_mem_cons]
    exact ⟨trivial, trivial, rfl, nofun⟩
  obtain ⟨s, d, hchain, hexport⟩ := exported_keywords_admit_texts _ hreads {}
  obtain rfl := Except.ok.inj hchain
  refine ⟨_, d, rfl, (hexport idleHost 0 { host := () }).1, ?_⟩
  have hholds : ∀ call ∈ texts.inForce [.min 1 none, .max 5 none, .pattern startsWithA none],
      call.Holds "ab" := by
    have hlength : "ab".length = 2 := rfl
    have hsearch : startsWithA.search "ab" = true := by decide +kernel
    simp [Cascade.inForce, texts, lastCall, TextCall.code, TextCall.Holds, hlength, hsearch]
  have hgives := @texts_accepted Unit idleHost rfl _ _ hholds 0 { host := () }
  refine ((hexport idleHost 1 { host := () }).2 .immediate "ab" (.text "ab") hgives).2.2.2 ?_
  · rintro p words ⟨⟩
    rfl

/-- A pattern for some letters, in whatever case they are written. -/
def anyCaseAbc : Pattern :=
  ⟨"abc", { ignoreCase := true }, .seq (.char 'a') (.seq (.char 'b') (.char 'c'))⟩

/-- The flag of a pattern that was read to ignore case is not in the document, whose pattern
excludes a text that the schema accepts. -/
theorem flags_not_exported :
    Pattern.read "abc" { ignoreCase := true } = .ok anyCaseAbc ∧
    ∃ s, Base.text.chain {} [.pattern (.ok (.text anyCaseAbc)) none] = .ok s ∧
      Gives idleHost .immediate 1 s (.text "ABC") { host := () }
        (.accepted (.text "ABC")) ∧
      (idleHost.exportSchema 1 s).runIn { host := () } =
        (.ok [.type "string", .pattern (.text "abc")], { host := () }) ∧
      Pattern.matchesIn "abc" "ABC" = false := by
  have hholds : ∀ call ∈ texts.inForce [.pattern anyCaseAbc none], call.Holds "ABC" := by
    have hsearch : anyCaseAbc.search "ABC" = true := by decide +kernel
    simp [Cascade.inForce, texts, lastCall, TextCall.code, TextCall.Holds, hsearch]
  exact ⟨rfl, _, rfl, texts_accepted rfl hholds 0 _, rfl, by decide +kernel⟩

end Conform
