import Conform.Proofs.Appends
import Conform.Proofs.Container
import Conform.Proofs.Numeral

/-!
# What documents say of values

A document is a row of keywords, and admits a value if each of them does. Most keywords
look at values of one kind only and admit all others. Two keywords look at each other: the
one that closes a mapping asks which keys the properties beside it declare.

Numbers are told apart by where they lie, so that a whole number is an integer however it
is written, and patterns are read and searched as those of text schemas are.

## Main definitions

* `Document.admits` — whether a document admits a value, looked up in a store.

## Main results

* `Document.admits_iff` — a document admits what all its keywords admit.
* `Document.admits_put` — a keyword more, or one in the place of another.
* `Schema.admits_of_judge?` — a schema without parts accepts only what its document admits.
-/

namespace Conform

open Traverse

/-! ## Values that keywords look at -/

/-- The text that a value is. -/
def Value.text? : Value → Option String
  | .text s => some s
  | _ => none

/-- The number that a value is. -/
def Value.number? : Value → Option Number
  | .atom a => a.number?
  | _ => none

/-- The integer that a value is. -/
def Value.int? : Value → Option Int
  | .int n => some n
  | _ => none

/-- Whether two atoms are the same to a document: numbers by where they lie, everything
else as it is. -/
def Atom.alike (a b : Atom) : Bool :=
  match a.number?, b.number? with
  | some m, some n => m.equal n
  | none, none => a = b
  | _, _ => false

/-- Whether one number lies before another or where it does. -/
def Number.le (m n : Number) : Bool := m.lt n || m.equal n

/-- Whether a value is of a type. -/
def Store.isOfType (st : Store) (v : Value) (name : String) : Bool :=
  match v with
  | .null => name = "null"
  | .bool _ => name = "boolean"
  | .text _ => name = "string"
  | .atom a => a.number?.any fun n => name = "number" || (name = "integer" && n.isWhole)
  | v => (name = "array" && (st.items? v).isSome) || (name = "object" && (st.entries? v).isSome)

/-- Whether a text has a match of a written pattern. -/
def Pattern.matchesIn (source s : String) : Bool :=
  match Pattern.read source {} with
  | .ok p => p.search s
  | .error _ => false

/-! ## Keywords and documents -/

/-- The keys that the properties of a document declare. -/
def Document.declared : Document → List Key
  | [] => []
  | .properties documents :: _ => documents.map Prod.fst
  | _ :: d => Document.declared d

mutual

/-- Whether a keyword admits a value, beside properties that declare some keys. -/
def Keyword.admits (st : Store) (declared : List Key) : Keyword → Value → Bool
  | .type name, v => st.isOfType v name
  | .enum members, v =>
    match v with
    | .atom a => members.any (·.alike a)
    | _ => false
  | .minLength bound, v => v.text?.all fun s => bound.int?.any (· ≤ s.length)
  | .maxLength bound, v => v.text?.all fun s => bound.int?.any (s.length ≤ ·)
  | .pattern source, v => v.text?.all fun s => source.text?.any (Pattern.matchesIn · s)
  | .minimum bound, v => v.number?.all fun n => bound.any (·.le n)
  | .maximum bound, v => v.number?.all fun n => bound.any n.le
  | .items document, v =>
    (st.items? v).all fun us => us.all (Keyword.allAdmit st (Document.declared document) document)
  | .minItems bound, v => (st.items? v).all (bound ≤ ·.length)
  | .maxItems bound, v => (st.items? v).all (·.length ≤ bound)
  | .properties documents, v => (st.entries? v).all (Keyword.propertiesAdmit st documents)
  | .required keys, v => (st.entries? v).all fun es => keys.all es.has
  | .additionalProperties allowed, v =>
    allowed || (st.entries? v).all fun es => es.keys.all fun k => declared.any (·.same k)
  | .anyOf documents, v => Keyword.someAdmits st documents v
  | .allOf documents, v => Keyword.eachAdmits st documents v
  | .format _, _ => true
  | .formatMinimum _, _ => true
  | .formatMaximum _, _ => true
  | .default _, _ => true

/-- Whether all keywords admit a value, beside properties that declare some keys. -/
def Keyword.allAdmit (st : Store) (declared : List Key) : List Keyword → Value → Bool
  | [], _ => true
  | k :: ks, v => Keyword.admits st declared k v && Keyword.allAdmit st declared ks v

/-- Whether the documents of properties admit what stands at their keys. -/
def Keyword.propertiesAdmit (st : Store) : List (Key × List Keyword) → Entries Value → Bool
  | [], _ => true
  | (k, d) :: ds, es =>
    (es.find? k).all (Keyword.allAdmit st (Document.declared d) d) &&
      Keyword.propertiesAdmit st ds es

/-- Whether some document admits a value. -/
def Keyword.someAdmits (st : Store) : List (List Keyword) → Value → Bool
  | [], _ => false
  | d :: ds, v => Keyword.allAdmit st (Document.declared d) d v || Keyword.someAdmits st ds v

/-- Whether each document admits a value. -/
def Keyword.eachAdmits (st : Store) : List (List Keyword) → Value → Bool
  | [], _ => true
  | d :: ds, v => Keyword.allAdmit st (Document.declared d) d v && Keyword.eachAdmits st ds v

end

/-- Whether a document admits a value. -/
def Document.admits (st : Store) (d : Document) (v : Value) : Bool :=
  Keyword.allAdmit st d.declared d v

section Documents

variable {st : Store} {declared : List Key} {d : Document} {ds : List Document} {k : Keyword}
  {v : Value}

theorem Keyword.allAdmit_iff {ks : List Keyword} :
    Keyword.allAdmit st declared ks v = true ↔ ∀ k ∈ ks, k.admits st declared v = true := by
  induction ks with
  | nil => simp [Keyword.allAdmit]
  | cons k ks ih => simp [Keyword.allAdmit, ih]

theorem Document.admits_iff :
    d.admits st v = true ↔ ∀ k ∈ d, k.admits st d.declared v = true :=
  Keyword.allAdmit_iff

theorem Keyword.propertiesAdmit_iff {documents : List (Key × Document)} {es : Entries Value} :
    Keyword.propertiesAdmit st documents es = true ↔
      ∀ e ∈ documents, ∀ u, es.find? e.1 = some u → e.2.admits st u = true := by
  induction documents with
  | nil => simp [Keyword.propertiesAdmit]
  | cons e documents ih =>
      obtain ⟨k, d⟩ := e
      have hfirst : (es.find? k).all (Keyword.allAdmit st d.declared d) = true ↔
          ∀ u, es.find? k = some u → d.admits st u = true := Option.all_eq_true ..
      simp [Keyword.propertiesAdmit, ih, hfirst]

theorem Keyword.someAdmits_iff :
    Keyword.someAdmits st ds v = true ↔ ∃ d ∈ ds, d.admits st v = true := by
  induction ds with
  | nil => simp [Keyword.someAdmits]
  | cons d ds ih => simp [Keyword.someAdmits, ih, Document.admits]

theorem Keyword.eachAdmits_iff :
    Keyword.eachAdmits st ds v = true ↔ ∀ d ∈ ds, d.admits st v = true := by
  induction ds with
  | nil => simp [Keyword.eachAdmits]
  | cons d ds ih => simp [Keyword.eachAdmits, ih, Document.admits]

theorem Document.admits_anyOf_iff :
    Document.admits st [.anyOf ds] v = true ↔ ∃ d ∈ ds, d.admits st v = true := by
  simp [Document.admits_iff, Keyword.admits, Keyword.someAdmits_iff]

theorem Document.admits_allOf_iff :
    Document.admits st [.allOf ds] v = true ↔ ∀ d ∈ ds, d.admits st v = true := by
  simp [Document.admits_iff, Keyword.admits, Keyword.eachAdmits_iff]

/-! ## Setting keywords -/

/-- A keyword says the same beside all properties, and declares none itself. -/
def Keyword.Admits (k : Keyword) (st : Store) (v : Value) : Prop :=
  k.name ≠ "properties" ∧ ∀ declared, k.admits st declared v = true

theorem Document.declared_cons (h : k.name ≠ "properties") :
    Document.declared (k :: d) = Document.declared d := by
  cases k <;> first | rfl | exact absurd rfl h

theorem Document.declared_put (h : k.name ≠ "properties") : (d.put k).declared = d.declared := by
  induction d with
  | nil => exact Document.declared_cons h
  | cons l d ih =>
      simp only [Document.put]
      split
      · rename_i hname
        rw [Document.declared_cons h, Document.declared_cons (hname ▸ h)]
      · cases l <;> first | exact ih | rfl

theorem Document.mem_put {l : Keyword} (h : l ∈ d.put k) : l = k ∨ l ∈ d := by
  induction d with
  | nil => exact .inl (List.mem_singleton.mp h)
  | cons m d ih =>
      simp only [Document.put] at h
      split at h
      · exact (List.mem_cons.mp h).imp_right (List.mem_cons_of_mem _)
      · rcases List.mem_cons.mp h with rfl | h
        · exact .inr List.mem_cons_self
        · exact (ih h).imp_right (List.mem_cons_of_mem _)

/-- A keyword that admits a value may be set, also in the place of another. -/
theorem Document.admits_put (hd : d.admits st v = true) (hk : k.Admits st v) :
    (d.put k).admits st v = true := by
  obtain ⟨hname, hadmits⟩ := hk
  refine Document.admits_iff.mpr fun l hl => ?_
  rcases Document.mem_put hl with rfl | hl
  · exact hadmits _
  · rw [Document.declared_put hname]
    exact Document.admits_iff.mp hd l hl

theorem Document.admits_putOption {o : Option Keyword} (hd : d.admits st v = true)
    (ho : ∀ k, o = some k → k.Admits st v) : (d.putOption o).admits st v = true := by
  cases o with
  | none => exact hd
  | some k => exact Document.admits_put hd (ho k rfl)

theorem Document.mem_putOption {o : Option Keyword} {l : Keyword} (h : l ∈ d.putOption o) :
    o = some l ∨ l ∈ d := by
  cases o with
  | none => exact .inr h
  | some k => exact (Document.mem_put h).imp_left fun heq => congrArg some heq.symm

/-- The keyword of a check that may not be set. -/
theorem Keyword.admits_of_map {α : Type} {check : Option α} {keyword : α → Keyword}
    (h : ∀ c, check = some c → (keyword c).Admits st v) :
    ∀ k, check.map keyword = some k → k.Admits st v := by
  intro k hk
  obtain ⟨c, hc, rfl⟩ := Option.map_eq_some_iff.mp hk
  exact h c hc

end Documents

/-! ## Numbers -/

namespace Number

variable {m n : Number}

theorem lt_int (a b : Int) : (int a).lt (int b) = decide (a < b) := by
  have hpos : (0 : Int) < Binary64.unitsPerOne := by exact_mod_cast Binary64.unitsPerOne_pos
  simp only [lt, measure?, Measure.lt]
  exact decide_eq_decide.mpr (Int.mul_lt_mul_right hpos)

theorem equal_int (a b : Int) : (int a).equal (int b) = decide (a = b) := by
  have hpos : (Binary64.unitsPerOne : Int) ≠ 0 := by exact_mod_cast Binary64.unitsPerOne_pos.ne'
  simp only [equal, measure?, Measure.at.injEq]
  exact decide_eq_decide.mpr (Int.mul_eq_mul_right_iff hpos)

/-- Of two numbers that are numbers, the one that does not lie before the other lies after
it or where it does. -/
theorem le_of_lt_eq_false (hm : m.isNaN = false) (hn : n.isNaN = false) (h : n.lt m = false) :
    m.le n = true := by
  unfold le lt equal at *
  cases hm' : m.measure? with
  | none => simp [(measure?_eq_none_iff m).mp hm'] at hm
  | some x =>
      cases hn' : n.measure? with
      | none => simp [(measure?_eq_none_iff n).mp hn'] at hn
      | some y =>
          simp only [hm', hn'] at h ⊢
          cases x <;> cases y <;> simp_all [Measure.lt]
          omega

/-- What lies where an integer does is whole. -/
theorem isWhole_of_equal_int {a : Int} (h : (int a).equal n = true) : n.isWhole = true := by
  cases n with
  | int b => rfl
  | float x =>
      cases x with
      | finite negative units =>
          simp only [equal, measure?, Measure.at.injEq, decide_eq_true_eq] at h
          have hdvd : (Binary64.unitsPerOne : Int) ∣ (units : Int) := by
            unfold Binary64.signed at h
            split at h
            · exact ⟨-a, by rw [Int.mul_neg, Int.mul_comm, h, Int.neg_neg]⟩
            · exact ⟨a, by rw [Int.mul_comm, h]⟩
          simpa [isWhole, Binary64.isWhole] using
            Nat.mod_eq_zero_of_dvd (Int.natCast_dvd_natCast.mp hdvd)
      | nan => simp [equal, measure?] at h
      | infinite negative => cases negative <;> simp [equal, measure?] at h

end Number

/-! ## Values of documents -/

/-- A value that documents know, without what stands in it: null, a truth value, a finite
number, a text, a list, or a mapping with texts for keys. -/
inductive Store.JsonKind (st : Store) : Value → Prop
  | null : JsonKind st .null
  | bool (b : Bool) : JsonKind st (.bool b)
  | int (n : Int) : JsonKind st (.int n)
  | float (x : Binary64) (h : x.isFinite = true) : JsonKind st (.atom (.float x))
  | text (s : String) : JsonKind st (.text s)
  | list {v : Value} {items : List Value} (h : st.contents? v = some (.list items)) : JsonKind st v
  | mapping {v : Value} {readOnly : Bool} {es : Entries Value}
      (h : st.contents? v = some (.mapping readOnly es)) (hkeys : ∀ k ∈ es.keys, ∃ s, k = .text s) :
      JsonKind st v

/-- A value that documents know, with all that stands in it. -/
def Store.Json (st : Store) (v : Value) : Prop := ∀ u, st.Reaches v u → st.JsonKind u

/-! ## Schemas without parts -/

/-- Documents can tell what a schema asks for by itself: it does not take any value, lengths
are bounded by integers, numbers by numbers, no pattern is asked for, and the members of an
enumeration are texts and numbers. -/
def Schema.Documented : Schema → Prop
  | .any => False
  | .string checks => checks.pattern = none ∧
      ∀ c, checks.min = some c ∨ checks.max = some c ∨ checks.length = some c →
        ∃ n, c.value = .int n
  | .number checks =>
    ∀ c, checks.min = some c ∨ checks.max = some c → ∀ n, c.value = some n → n.isNaN = false
  | .enumeration first rest => ∀ a ∈ first :: rest, (∃ s, a = .text s) ∨ a.number?.isSome = true
  | _ => True

theorem none_of_ofClauses {v r : Value} {clauses : List (Except Fault (Option Violation))}
    (h : Judgement.ofClauses v clauses = .ok (.accepted r)) : ∀ x ∈ clauses, x = .ok none := by
  have hfirst : firstViolation clauses = .ok none := by
    unfold Judgement.ofClauses at h
    split at h
    · cases h
    · cases h
    · assumption
  clear h
  induction clauses with
  | nil => simp
  | cons clause clauses ih =>
      rcases clause with f | _ | x
      · cases hfirst
      · exact List.forall_mem_cons.mpr ⟨rfl, ih hfirst⟩
      · cases hfirst

/-- A check that finds no violation is not violated. -/
theorem eq_false_of_clause {α : Type} {check : Option (Check α)} {violated : α → Except Fault Bool}
    {report : Check α → Violation} (h : clause check violated report = .ok none) {c : Check α}
    (hc : check = some c) : violated c.value = .ok false := by
  subst hc
  simp only [clause] at h
  split at h
  · cases h
  · rename_i b hb
    cases b with
    | false => exact hb
    | true => cases h

section Leaves

variable {st st' : Store} {v r : Value}

/-- Where the keywords of the document of a text schema come from. -/
theorem StringChecks.mem_document {checks : StringChecks} {k : Keyword}
    (h : k ∈ checks.document) :
    k = .type "string" ∨
      (∃ c, (checks.min = some c ∨ checks.length = some c) ∧ k = .minLength c.value) ∨
      (∃ c, (checks.max = some c ∨ checks.length = some c) ∧ k = .maxLength c.value) ∨
      (∃ c, checks.pattern = some c ∧ k = .pattern c.value.source) ∨ ∃ name, k = .format name := by
  unfold StringChecks.document at h
  have hlast {α : Type} {check : Option α} {keyword : α → Keyword} {d : Document}
      (h : k ∈ d.putOption (check.map keyword)) :
      (∃ c, check = some c ∧ k = keyword c) ∨ k ∈ d :=
    (Document.mem_putOption h).imp_left fun h =>
      (Option.map_eq_some_iff.mp h).imp fun _ h => ⟨h.1, h.2.symm⟩
  rcases hlast h with ⟨c, -, rfl⟩ | h
  · exact .inr (.inr (.inr (.inr ⟨_, rfl⟩)))
  rcases hlast h with ⟨c, -, rfl⟩ | h
  · exact .inr (.inr (.inr (.inr ⟨_, rfl⟩)))
  rcases hlast h with ⟨c, hc, rfl⟩ | h
  · exact .inr (.inr (.inr (.inl ⟨c, hc, rfl⟩)))
  rcases hlast h with ⟨c, hc, rfl⟩ | h
  · exact .inr (.inr (.inl ⟨c, .inr hc, rfl⟩))
  rcases hlast h with ⟨c, hc, rfl⟩ | h
  · exact .inr (.inl ⟨c, .inr hc, rfl⟩)
  rcases hlast h with ⟨c, hc, rfl⟩ | h
  · exact .inr (.inr (.inl ⟨c, .inl hc, rfl⟩))
  rcases hlast h with ⟨c, hc, rfl⟩ | h
  · exact .inr (.inl ⟨c, .inl hc, rfl⟩)
  · exact .inl (List.mem_singleton.mp h)

/-- What is searched for and not missing is a pattern that has a match. -/
theorem Sought.missingIn_eq_false_iff {x : Sought} {s : String} :
    x.missingIn s = .ok false ↔ ∃ p, x = .text p ∧ p.search s = true := by
  cases x with
  | text p => simp [Sought.missingIn]
  | bytes bs => simp [Sought.missingIn]

/-- The keywords of the document of a text schema admit the texts that the schema accepts, but
for the pattern, of which only the pattern of the check is known to have a match. -/
theorem keyword_of_judge {checks : StringChecks}
    (hbounds : ∀ c, checks.min = some c ∨ checks.max = some c ∨ checks.length = some c →
      ∃ n, c.value = .int n)
    (h : checks.judge st v = .ok (.accepted r)) {k : Keyword} (hk : k ∈ checks.document) :
    ((∀ source, k ≠ .pattern source) ∧ k.Admits st' v) ∨ ∃ c p s, checks.pattern = some c ∧
      c.value = .text p ∧ k = .pattern (.text p.source) ∧ v = .text s ∧ p.search s = true := by
  unfold StringChecks.judge at h
  split at h
  · rename_i s
    have hnone := none_of_ofClauses h
    simp only [List.forall_mem_cons] at hnone
    obtain ⟨hmin, hmax, hlength, hpattern, -⟩ := hnone
    have hexact : ∀ c, checks.length = some c → ∃ n : Int, c.value = .int n ∧ s.length = n := by
      intro c hc
      have hkept := eq_false_of_clause hlength hc
      obtain ⟨n, hn⟩ := hbounds c (.inr (.inr hc))
      rw [hn] at hkept
      have hsame : (!(Number.int s.length).equal (.int n)) = false := Except.ok.inj hkept
      rw [Number.equal_int, Bool.not_eq_false', decide_eq_true_eq] at hsame
      exact ⟨n, hn, hsame⟩
    rcases StringChecks.mem_document hk with rfl | ⟨c, hc, rfl⟩ | ⟨c, hc, rfl⟩ | ⟨c, hc, rfl⟩ |
      ⟨name, rfl⟩
    · exact .inl ⟨nofun, by simp [Keyword.name], fun _ => rfl⟩
    · refine .inl ⟨nofun, by simp [Keyword.name], fun _ => ?_⟩
      rcases hc with hc | hc
      · have hkept := eq_false_of_clause hmin hc
        obtain ⟨n, hn⟩ := hbounds c (.inl hc)
        rw [hn] at hkept ⊢
        have hlt : (Number.int s.length).lt (.int n) = false := Except.ok.inj hkept
        rw [Number.lt_int, decide_eq_false_iff_not, Int.not_lt] at hlt
        exact decide_eq_true hlt
      · obtain ⟨n, hn, hsame⟩ := hexact c hc
        rw [hn]
        exact decide_eq_true hsame.ge
    · refine .inl ⟨nofun, by simp [Keyword.name], fun _ => ?_⟩
      rcases hc with hc | hc
      · have hkept := eq_false_of_clause hmax hc
        obtain ⟨n, hn⟩ := hbounds c (.inr (.inl hc))
        rw [hn] at hkept ⊢
        have hlt : (Number.int n).lt (.int s.length) = false := Except.ok.inj hkept
        rw [Number.lt_int, decide_eq_false_iff_not, Int.not_lt] at hlt
        exact decide_eq_true hlt
      · obtain ⟨n, hn, hsame⟩ := hexact c hc
        rw [hn]
        exact decide_eq_true hsame.le
    · obtain ⟨p, hp, hfound⟩ :=
        Sought.missingIn_eq_false_iff.mp (eq_false_of_clause hpattern hc)
      exact .inr ⟨c, p, s, hc, hp, by rw [hp]; rfl, rfl, hfound⟩
    · exact .inl ⟨nofun, by simp [Keyword.name], fun _ => rfl⟩
  · cases h

theorem admits_stringDocument {checks : StringChecks} (hs : (Schema.string checks).Documented)
    (h : checks.judge st v = .ok (.accepted r)) : checks.document.admits st' v = true := by
  obtain ⟨hpattern, hbounds⟩ := hs
  refine Document.admits_iff.mpr fun k hk => ?_
  rcases keyword_of_judge hbounds h hk with ⟨-, hk⟩ | ⟨c, p, s, hc, -⟩
  · exact hk.2 _
  · rw [hpattern] at hc
    cases hc

theorem admits_numberDocument {checks : NumberChecks} (hs : (Schema.number checks).Documented)
    (h : checks.judge st v = .ok (.accepted r)) : checks.document.admits st' v = true := by
  unfold NumberChecks.judge at h
  split at h
  · rename_i a
    split at h
    · rename_i n hn
      unfold NumberChecks.judgeNumber at h
      split at h
      · cases h
      · rename_i hnan
        have hnumber : (.atom a : Value).number? = some n := hn
        have hnan := Bool.eq_false_iff.mpr hnan
        have hnone := none_of_ofClauses h
        simp only [List.forall_mem_cons] at hnone
        obtain ⟨-, hmin, hmax, hint, -⟩ := hnone
        -- a bound that is not there cannot be compared with
        have hcompared : ∀ (c : Comparison) (bound : Option Number),
            compareNumber c n bound = .ok false → ∃ m, bound = some m ∧ c.holds n m = false := by
          rintro c (_ | m) hkept
          · cases hkept
          · exact ⟨m, rfl, Except.ok.inj hkept⟩
        unfold NumberChecks.document
        refine Document.admits_putOption (Document.admits_putOption ?_ ?_) ?_
        · refine Document.admits_iff.mpr fun k hk => ?_
          obtain rfl := List.mem_singleton.mp hk
          cases hchecked : checks.int with
          | none => cases a <;> cases hn <;> rfl
          | some c =>
              have hwhole := Except.ok.inj (eq_false_of_clause hint hchecked)
              rw [Bool.not_eq_false'] at hwhole
              cases a <;> cases hn <;> exact hwhole
        · refine Keyword.admits_of_map fun c hc => ⟨by simp [Keyword.name], fun _ => ?_⟩
          obtain ⟨m, hm, hlt⟩ := hcompared .less c.value (eq_false_of_clause hmin hc)
          have hbound := hs c (.inl hc) m hm
          simp [Keyword.admits, hnumber, hm, Number.le_of_lt_eq_false hbound hnan hlt]
        · refine Keyword.admits_of_map fun c hc => ⟨by simp [Keyword.name], fun _ => ?_⟩
          obtain ⟨m, hm, hlt⟩ := hcompared .greater c.value (eq_false_of_clause hmax hc)
          have hbound := hs c (.inr hc) m hm
          simp [Keyword.admits, hnumber, hm, Number.le_of_lt_eq_false hnan hbound hlt]
    · cases h
  · cases h

/-- What is found among texts and numbers is one of them to a document too. -/
theorem Atom.alike_of_sameKind {a b : Atom} (ha : (∃ s, a = .text s) ∨ a.number?.isSome = true)
    (h : a.sameKind b = true) : a.alike b = true := by
  simp only [Atom.sameKind, Bool.and_eq_true, beq_iff_eq] at h
  obtain ⟨hbool, hequal⟩ := h
  rcases ha with ⟨s, rfl⟩ | ha
  · cases b <;> simp_all [Atom.equal, Atom.count?, Atom.alike, Atom.number?]
  · cases a <;> cases b <;>
      simp_all [Atom.equal, Atom.count?, Atom.alike, Atom.number?, Atom.isBool]

theorem admits_enumDocument {members : List Atom}
    (hs : ∀ a ∈ members, (∃ s, a = .text s) ∨ a.number?.isSome = true)
    (h : judgeMember members v = .accepted r) : (enumDocument members).admits st' v = true := by
  obtain ⟨rfl, a, rfl, ⟨b, hb, hsame⟩, -⟩ := mem_of_judgeMember h
  have halike := Atom.alike_of_sameKind (hs b hb) hsame
  have hmember : Document.admits st' [.enum members] (.atom a) = true := by
    refine Document.admits_iff.mpr fun k hk => ?_
    obtain rfl := List.mem_singleton.mp hk
    exact List.any_eq_true.mpr ⟨b, hb, halike⟩
  unfold enumDocument
  refine Document.admits_putOption hmember (Keyword.admits_of_map fun name hname => ?_)
  refine ⟨by simp [Keyword.name], fun _ => ?_⟩
  -- the type is that of the member that was found
  split at hname
  · rename_i hall
    cases hname
    have htext := List.all_eq_true.mp hall b hb
    cases b <;> cases htext
    cases a <;> first | rfl | simp [Atom.alike, Atom.number?] at halike
  · split at hname
    · rename_i hall
      cases hname
      have hint := List.all_eq_true.mp hall b hb
      cases b <;> cases hint
      cases a <;> simp only [Atom.alike, Atom.number?] at halike <;> first | cases halike | skip
      · rfl
      · exact Number.isWhole_of_equal_int halike
    · split at hname
      · rename_i hall
        cases hname
        have hnumber := List.all_eq_true.mp hall b hb
        cases b <;> cases hnumber <;> cases a <;>
          first | rfl | (simp only [Atom.alike, Atom.number?] at halike; cases halike)
      · cases hname

theorem admits_integerText {n : Int} {s : String} (h : readInteger? s = some n) :
    Document.admits st' [.type "string", .pattern (.text integerTextPattern)] (.text s) = true := by
  have hmatch : Pattern.matchesIn integerTextPattern s = true := by
    unfold Pattern.matchesIn
    rw [Pattern.read_integerTextPattern]
    exact (Pattern.search_integerText_iff s).mpr ⟨n, ((readInteger?_eq_some_iff s n).mp h).1⟩
  refine Document.admits_iff.mpr fun k hk => ?_
  rcases List.mem_cons.mp hk with rfl | hk
  · rfl
  · obtain rfl := List.mem_singleton.mp hk
    simp only [Keyword.admits, Value.text?, Option.all_some, Option.any_some]
    exact hmatch

/-- The document of a schema without parts. -/
def Schema.ownDocument? : Schema → Option Document
  | .string checks => some checks.document
  | .number checks => some checks.document
  | .boolean => some [.type "boolean"]
  | .date checks => some checks.document
  | .integerText => some [.type "string", .pattern (.text integerTextPattern)]
  | .decimalText => some [.type "string"]
  | .enumeration first rest => some (enumDocument (first :: rest))
  | _ => none

/-- A schema without parts accepts, of the values that documents know, only those that its
document admits. Dates are not among these values. -/
theorem Schema.admits_of_judge? {s : Schema} {d : Document} (hs : s.Documented)
    (hkind : st'.JsonKind v) (hd : s.ownDocument? = some d)
    (h : s.judge? st v = some (.ok (.accepted r))) : d.admits st' v = true := by
  cases s with
  | string checks =>
      cases hd
      exact admits_stringDocument hs (Option.some.inj h)
  | number checks =>
      cases hd
      exact admits_numberDocument hs (Option.some.inj h)
  | boolean =>
      cases hd
      simp only [Schema.judge?, judgeBoolean, Option.some.injEq, Except.ok.injEq] at h
      split at h
      · rfl
      · cases h
  | date checks =>
      simp only [Schema.judge?, DateChecks.judge, Option.some.injEq] at h
      split at h
      · rename_i a
        split at h
        · rename_i m hmoment
          cases hkind with
          | list hc => cases hc
          | mapping hc => cases hc
          | _ => cases hmoment
        · cases h
      · cases h
  | integerText =>
      cases hd
      simp only [Schema.judge?, Option.some.injEq, Except.ok.injEq] at h
      obtain ⟨text, rfl, hread⟩ := eq_some_of_judgeWritten h
      obtain ⟨n, hn, -⟩ := Option.map_eq_some_iff.mp hread
      exact admits_integerText hn
  | decimalText =>
      cases hd
      simp only [Schema.judge?, Option.some.injEq, Except.ok.injEq] at h
      obtain ⟨text, rfl, -⟩ := eq_some_of_judgeWritten h
      rfl
  | enumeration first rest =>
      cases hd
      simp only [Schema.judge?, Option.some.injEq, Except.ok.injEq] at h
      exact admits_enumDocument hs h
  | _ => cases hd

end Leaves

end Conform
