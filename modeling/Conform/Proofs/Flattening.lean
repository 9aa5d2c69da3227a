import Conform.Proofs.Branching
import Conform.Proofs.Places

/-!
# Messages grouped by path

The errors of a refusal are shown in groups, one for each dotted path. Nothing is lost
by that, nothing comes twice and nothing changes its order: the keys of the groups are
the dotted paths of the errors, each where it is met first, and under each of them are
the messages of the errors with that dotted path, in their order.

But a dotted path is less than a path. Two paths have the same dotted path exactly if
their keys, cut at points, are the same pieces; and the root is written like the key
`root`. So a key with a point in it can be taken for two keys, one below the other.

It is never worse than that. Where no key of the paths has a point, and none of them
is the one key `root`, the groups are those of the paths themselves, although a place
in a sequence is written like a text: the paths of a run part plainly.

## Main results

* `ErrorRecord.flatten_eq_groupsBy` — messages in groups, by dotted path.
* `Path.dotted_eq_iff` — which paths have the same dotted path.
* `Path.Legible.dotted_eq_iff` — legible paths that part plainly never do.
* `messages_grouped_by_dotted_path` — the errors of a whole value, grouped.
-/

namespace Conform

/-! ## Equality of keys -/

namespace Key

mutual

/-- Keys are equal or not. -/
def decideEq : (k l : Key) → Decidable (k = l)
  | .atom a, .atom b =>
    if h : a = b then .isTrue (congrArg Key.atom h) else .isFalse fun heq => h (Key.atom.inj heq)
  | .tuple ks, .tuple ls =>
    match decideEqAll ks ls with
    | .isTrue h => .isTrue (congrArg Key.tuple h)
    | .isFalse h => .isFalse fun heq => h (Key.tuple.inj heq)
  | .atom _, .tuple _ => .isFalse nofun
  | .tuple _, .atom _ => .isFalse nofun

/-- Runs of keys are equal or not. -/
def decideEqAll : (ks ls : List Key) → Decidable (ks = ls)
  | [], [] => .isTrue rfl
  | k :: ks, l :: ls =>
    match decideEq k l, decideEqAll ks ls with
    | .isTrue h, .isTrue h' => .isTrue (by rw [h, h'])
    | .isFalse h, _ => .isFalse fun heq => h (List.cons.inj heq).1
    | _, .isFalse h => .isFalse fun heq => h (List.cons.inj heq).2
  | [], _ :: _ => .isFalse nofun
  | _ :: _, [] => .isFalse nofun

end

instance : DecidableEq Key := decideEq

end Key

/-! ## Firsts -/

section Firsts

variable {α β : Type} [DecidableEq α] [DecidableEq β]

/-- One more element is a new one, or was met before. -/
theorem eraseDups_concat (as : List α) (a : α) :
    (as ++ [a]).eraseDups = if a ∈ as then as.eraseDups else as.eraseDups ++ [a] := by
  rw [List.eraseDups_append]
  by_cases h : a ∈ as <;> simp [List.removeAll, List.eraseDups_cons, h]

theorem nodup_eraseDups (as : List α) : as.eraseDups.Nodup := by
  induction as using List.reverseRecOn with
  | nil => simp
  | append_singleton as a ih =>
      rw [eraseDups_concat]
      split
      · exact ih
      · rename_i h
        simpa using ih.concat (by simpa using h)

/-- Renaming keeps what is met first, if it does not make one of two. -/
theorem eraseDups_map {f : α → β} {as : List α}
    (hf : ∀ a ∈ as, ∀ b ∈ as, f a = f b → a = b) :
    (as.map f).eraseDups = as.eraseDups.map f := by
  induction as using List.reverseRecOn with
  | nil => rfl
  | append_singleton as a ih =>
      have hearlier : ∀ b ∈ as, ∀ c ∈ as, f b = f c → b = c := fun b hb c hc =>
        hf b (List.mem_append_left _ hb) c (List.mem_append_left _ hc)
      have hmet : f a ∈ as.map f ↔ a ∈ as := by
        refine ⟨fun h => ?_, List.mem_map_of_mem⟩
        obtain ⟨b, hb, hfb⟩ := List.mem_map.mp h
        exact hf b (by simp [hb]) a (by simp) hfb ▸ hb
      rw [List.map_append, List.map_singleton, eraseDups_concat, eraseDups_concat, ih hearlier]
      by_cases h : a ∈ as <;> simp [hmet, h]

end Firsts

/-! ## Groups -/

namespace ErrorRecord

/-- The messages of errors in groups, one for each value of a key in the order in which
these are met first. -/
def groupsBy {κ : Type} [DecidableEq κ] (key : ErrorRecord → κ) (es : List ErrorRecord) :
    List (κ × List (Option String)) :=
  (es.map key).eraseDups.map fun k => (k, (es.filter fun e => key e = k).map (·.message))

/-- A message for a group that is there goes behind the others of the group. -/
theorem addMessage_of_mem {names : List String} (hnames : names.Nodup) {name : String}
    (h : name ∈ names) (ms : String → List (Option String)) (m : Option String) :
    addMessage (names.map fun n => (n, ms n)) name m =
      names.map fun n => (n, if n = name then ms n ++ [m] else ms n) := by
  induction names with
  | nil => cases h
  | cons n names ih =>
      obtain ⟨hn, hnames⟩ := List.nodup_cons.mp hnames
      by_cases hname : n = name
      · subst hname
        have hothers : ∀ l ∈ names, l ≠ n := fun l hl heq => hn (heq ▸ hl)
        simpa [addMessage] using hothers
      · have hlater : name ∈ names := (List.mem_cons.mp h).resolve_left (Ne.symm hname)
        simp [addMessage, hname, ih hnames hlater]

/-- A message for a group that is not there makes one, behind the others. -/
theorem addMessage_of_not_mem {names : List String} {name : String} (h : name ∉ names)
    (ms : String → List (Option String)) (m : Option String) :
    addMessage (names.map fun n => (n, ms n)) name m =
      (names.map fun n => (n, ms n)) ++ [(name, [m])] := by
  induction names with
  | nil => rfl
  | cons n names ih =>
      obtain ⟨hname, hlater⟩ := not_or.mp (List.mem_cons.not.mp h)
      simp [addMessage, Ne.symm hname, ih hlater]

/-- One more error in groups is its message in its group. -/
theorem groupsBy_concat (key : ErrorRecord → String) (es : List ErrorRecord) (e : ErrorRecord) :
    groupsBy key (es ++ [e]) = addMessage (groupsBy key es) (key e) e.message := by
  have hmem : key e ∈ (es.map key).eraseDups ↔ key e ∈ es.map key := List.mem_eraseDups
  unfold groupsBy
  rw [List.map_append, List.map_singleton, eraseDups_concat]
  -- the group is there exactly if an error before has the key
  by_cases hmet : key e ∈ es.map key
  · rw [if_pos hmet, addMessage_of_mem (nodup_eraseDups _) (hmem.mpr hmet)]
    refine List.map_congr_left fun n _ => ?_
    by_cases hn : n = key e
    · simp [hn]
    · simp [hn, Ne.symm hn]
  · rw [if_neg hmet, addMessage_of_not_mem (hmem.not.mpr hmet), List.map_append]
    have hnone : es.filter (fun x => key x = key e) = [] := by
      simpa [List.filter_eq_nil_iff] using hmet
    congr 1
    · refine List.map_congr_left fun n hn => ?_
      have hother : key e ≠ n := fun heq => hmet (heq ▸ List.mem_eraseDups.mp hn)
      simp [hother]
    · simp [hnone]

/-- The messages are grouped by dotted path; none is lost, comes twice or changes its
order. -/
theorem flatten_eq_groupsBy (es : List ErrorRecord) :
    flatten es = groupsBy (·.path.dotted) es := by
  induction es using List.reverseRecOn with
  | nil => rfl
  | append_singleton es e ih =>
      rw [groupsBy_concat, ← ih, flatten, List.foldl_append]
      rfl

/-- Groups by a renamed key are the groups by the key, renamed, if the renaming does not
make one of two. -/
theorem groupsBy_renamed {κ μ : Type} [DecidableEq κ] [DecidableEq μ] {key : ErrorRecord → κ}
    {f : κ → μ} {es : List ErrorRecord}
    (hf : ∀ x ∈ es, ∀ y ∈ es, f (key x) = f (key y) → key x = key y) :
    groupsBy (fun e => f (key e)) es = (groupsBy key es).map fun g => (f g.1, g.2) := by
  have hkeys : (es.map fun e => f (key e)).eraseDups = (es.map key).eraseDups.map f := by
    rw [← eraseDups_map (by simpa using hf), List.map_map]
    rfl
  unfold groupsBy
  rw [hkeys, List.map_map, List.map_map]
  refine List.map_congr_left fun k hk => ?_
  obtain ⟨x, hx, rfl⟩ := List.mem_map.mp (List.mem_eraseDups.mp hk)
  have hsame : es.filter (fun e => f (key e) = f (key x)) = es.filter (fun e => key e = key x) := by
    refine List.filter_congr fun e he => ?_
    exact decide_eq_decide.mpr ⟨hf e he x hx, congrArg f⟩
  simp [hsame]

end ErrorRecord

/-! ## Dotted paths -/

namespace Path

/-- The words of a path: its keys as they are written. The root has a name. -/
def words (p : Path) : List String :=
  match p with
  | [] => ["root"]
  | p => p.map Key.plain

/-- The pieces of a path: its words, cut at points. -/
def pieces (p : Path) : List (List Char) := p.words.flatMap fun word => word.toList.splitOn '.'

theorem words_ne_nil (p : Path) : p.words ≠ [] := by cases p <;> simp [words]

theorem dotted_eq_joinWith (p : Path) : p.dotted = joinWith "." p.words := by cases p <;> rfl

/-- What is joined by a separator, cut at it, is each part cut at it. -/
theorem splitOn_intercalate_eq_flatMap {α : Type} [DecidableEq α] (a : α) {parts : List (List α)}
    (h : parts ≠ []) :
    ([a].intercalate parts).splitOn a = parts.flatMap fun part => part.splitOn a := by
  induction parts with
  | nil => exact absurd rfl h
  | cons part parts ih =>
      cases parts with
      | nil => simp
      | cons next parts =>
          rw [List.intercalate_cons_cons, List.append_assoc, List.singleton_append,
            List.splitOn_append_cons_self, ih (List.cons_ne_nil _ _)]
          rfl

theorem splitOn_dotted (p : Path) : p.dotted.toList.splitOn '.' = p.pieces := by
  have hjoined : p.dotted.toList = ['.'].intercalate (p.words.map String.toList) := by
    rw [dotted_eq_joinWith]
    exact String.toList_intercalate
  have hwords : p.words.map String.toList ≠ [] := by simpa using p.words_ne_nil
  rw [hjoined, splitOn_intercalate_eq_flatMap _ hwords, List.flatMap_map]
  rfl

/-- Two paths have the same dotted path exactly if they have the same pieces. -/
theorem dotted_eq_iff {p q : Path} : p.dotted = q.dotted ↔ p.pieces = q.pieces := by
  rw [← splitOn_dotted, ← splitOn_dotted]
  refine ⟨fun h => by rw [h], fun h => String.toList_injective ?_⟩
  have hjoin : ∀ cs : List Char, ['.'].intercalate (cs.splitOn '.') = cs :=
    fun _ => List.intercalate_splitOn '.'
  rw [← hjoin p.dotted.toList, h, hjoin]

/-! ## Legible paths -/

/-- A path whose keys are written without a point, and that is not a single key written
like the root. -/
structure Legible (p : Path) : Prop where
  plain : ∀ k ∈ p, '.' ∉ k.plain.toList
  notRoot : p.map Key.plain ≠ ["root"]

variable {p q : Path}

/-- The words of a legible path have no points. -/
theorem Legible.pieces_eq (h : p.Legible) : p.pieces = p.words.map String.toList := by
  have huncut : ∀ word ∈ p.words, word.toList.splitOn '.' = [word.toList] := by
    intro word hword
    refine List.splitOn_eq_singleton ?_
    cases p with
    | nil =>
        rw [List.mem_singleton.mp hword]
        decide
    | cons k p =>
        obtain ⟨l, hl, rfl⟩ := List.mem_map.mp hword
        exact h.plain l hl
  rw [pieces, List.flatMap_congr huncut, List.map_eq_flatMap]

/-- Only the root has the words of the root. -/
theorem Legible.plain_eq_of_words_eq (hp : p.Legible) (hq : q.Legible) (h : p.words = q.words) :
    p.map Key.plain = q.map Key.plain := by
  cases p with
  | nil =>
      cases q with
      | nil => rfl
      | cons l q => exact absurd h.symm hq.notRoot
  | cons k p =>
      cases q with
      | nil => exact absurd h hp.notRoot
      | cons l q => exact h

/-- Legible paths that part plainly are told apart by their dotted paths. -/
theorem Legible.dotted_eq_iff (hp : p.Legible) (hq : q.Legible) (hparts : p.PartsPlainly q) :
    p.dotted = q.dotted ↔ p = q := by
  refine ⟨fun h => ?_, fun h => by rw [h]⟩
  have hpieces := Path.dotted_eq_iff.mp h
  rw [hp.pieces_eq, hq.pieces_eq] at hpieces
  have hwords := List.map_injective_iff.mpr (fun _ _ => String.toList_injective) hpieces
  exact hparts.eq_of_plain_eq (hp.plain_eq_of_words_eq hq hwords)

end Path

namespace Key

/-- A key that is written without a point, and not like the root. -/
def Legible (k : Key) : Prop := '.' ∉ k.plain.toList ∧ k.plain ≠ "root"

theorem legible_index (i : Nat) : (index i).Legible := by
  have hplain : (index i).plain.toList = Decimal.digits i := String.toList_ofList
  have hdigit : ∀ c ∈ Decimal.digits i, c.isDigit = true :=
    List.all_eq_true.mp (Decimal.all_isDigit_digits i)
  constructor
  · rw [hplain]
    exact fun hpoint => absurd (hdigit '.' hpoint) (by decide)
  · intro hroot
    have hletter : 'r' ∈ Decimal.digits i := by
      rw [← hplain, hroot]
      decide
    exact absurd (hdigit 'r' hletter) (by decide)

end Key

theorem Path.legible_of_keys {p : Path} (h : ∀ k ∈ p, k.Legible) : p.Legible where
  plain k hk := (h k hk).1
  notRoot hroot := by
    obtain ⟨k, rfl, hk⟩ := List.map_eq_singleton_iff.mp hroot
    exact (h k (List.mem_singleton_self k)).2 hk

/-! ## Whole values -/

namespace Schema

/-- No object in a schema has two fields whose keys are written alike. Distinct texts
never are. -/
def KeysApart (s : Schema) : Prop := s.Keyed fun _ => True

/-- So it is, and no object has a key that is written with a point or like the root. -/
def Legible (s : Schema) : Prop := s.Keyed Key.Legible

end Schema

open Validate in
/-- The messages in the refusal of a whole value are grouped by dotted path. The dotted
paths are those of the errors, each where it is met first, and with each are the
messages of the errors that have it, in their order; so none is lost or comes twice.

Two errors are in one group exactly if their paths, cut at points, are the same pieces.
If the paths are legible, that is exactly if they are equal. So if all are, there is one
group for each path, with the messages of the errors that have this path. And all are if
no key that the schemas declare is written with a point or like the root. -/
theorem messages_grouped_by_dotted_path {σ : Type} (env : Setting σ) (may : Nat → Schema → Prop)
    (mode : Mode) (depth : Nat) (s : Schema) (v : Value) (w : World σ) (es : List ErrorRecord)
    (hkeeps : env.Keeps (World.Stands may)) (hmay : ∀ id t, may id t → t.KeysApart)
    (hs : s.KeysApart) (hw : w.Stands may) (hrefuses : Refuses env mode depth s v w es) :
    ErrorRecord.flatten es = ErrorRecord.groupsBy (·.path.dotted) es ∧
    (∀ x ∈ es, ∀ y ∈ es, x.path.dotted = y.path.dotted ↔ x.path.pieces = y.path.pieces) ∧
    (∀ x ∈ es, ∀ y ∈ es, x.path.Legible → y.path.Legible →
      (x.path.dotted = y.path.dotted ↔ x.path = y.path)) ∧
    ((∀ x ∈ es, x.path.Legible) → ErrorRecord.flatten es =
      (ErrorRecord.groupsBy (·.path) es).map fun g => (g.1.dotted, g.2)) ∧
    (s.Legible → (∀ id t, may id t → t.Legible) → ∀ x ∈ es, x.path.Legible) := by
  have hparts := (hrefuses.branches (fun _ => trivial) hkeeps hmay hs hw).parts
  have hshared : ∀ x ∈ es, ∀ y ∈ es, x.path.Legible → y.path.Legible →
      (x.path.dotted = y.path.dotted ↔ x.path = y.path) :=
    fun x hx y hy hxpath hypath => hxpath.dotted_eq_iff hypath (hparts x hx y hy)
  refine ⟨ErrorRecord.flatten_eq_groupsBy es, fun x _ y _ => Path.dotted_eq_iff, hshared,
    fun hlegible => ?_, fun hs hmay x hx => ?_⟩
  · rw [ErrorRecord.flatten_eq_groupsBy]
    exact ErrorRecord.groupsBy_renamed fun x hx y hy =>
      (hshared x hx y hy (hlegible x hx) (hlegible y hy)).mp
  · obtain ⟨q, hq, hkeys⟩ := (hrefuses.branches Key.legible_index hkeeps hmay hs hw).below x hx
    rw [hq]
    exact Path.legible_of_keys hkeys

/-- Rows of numbers, of which there are to be four, and a text whose key is written like
a place. -/
def rowsAndText : Schema :=
  .object [(.text "rows", .array (.array (.number {}) {})
    { min := some ⟨3, some "too few"⟩, length := some ⟨4, some "not four"⟩ }),
    (.text "0", .string {})] .strip

theorem part_rowsAndText {t : Schema} (h : rowsAndText.Part t) :
    t ∈ [rowsAndText, .array (.array (.number {}) {})
      { min := some ⟨3, some "too few"⟩, length := some ⟨4, some "not four"⟩ },
      .array (.number {}) {}, .number {}, .string {}] := by
  induction h with
  | refl => exact List.mem_cons_self
  | tail _ hstep ih =>
      simp only [List.mem_cons, List.not_mem_nil, or_false] at ih
      rcases ih with rfl | rfl | rfl | rfl | rfl <;> rcases hstep with hstep | hstep <;>
        cases hstep <;> grind

theorem legible_rowsAndText : rowsAndText.Legible := by
  intro t ht
  have hmem := part_rowsAndText ht
  simp only [List.mem_cons, List.not_mem_nil, or_false] at hmem
  rcases hmem with rfl | rfl | rfl | rfl | rfl
  · have hrows : (Key.text "rows").Legible := ⟨by decide, by decide⟩
    have hzero : (Key.text "0").Legible := ⟨by decide, by decide⟩
    exact ⟨List.forall_mem_cons.mpr ⟨hrows, List.forall_mem_singleton.mpr hzero⟩, by decide⟩
  all_goals trivial

/-- A row with a text, what is no row, and a number for the text. -/
def rowAndNumbers : Value :=
  .mapping false [(.text "rows", .list [.list [.int 1, .text "x"], .int 5]), (.text "0", .int 7)]

/-- What is wrong with these. -/
def rowErrors : List ErrorRecord :=
  [⟨[.text "rows", .index 0, .index 1], some "Expected number", .builtin .invalidType,
      some (kindDetails "number" "string")⟩,
    ⟨[.text "rows", .index 1], some "Expected array", .builtin .invalidType,
      some (kindDetails "array" "number")⟩,
    ⟨[.text "rows"], some "too few", .builtin .arrayMin,
      some (Details.ofValues [("min", .int 3), ("actual", .int 2)])⟩,
    ⟨[.text "rows"], some "not four", .builtin .arrayLength,
      some (Details.ofValues [("length", .int 4), ("actual", .int 2)])⟩,
    ⟨[.text "0"], some "Expected string", .builtin .invalidType,
      some (kindDetails "string" "number")⟩]

/-- One group for each of four paths, in which the two messages about the rows stand
together. -/
theorem messages_grouped_by_dotted_path_rows :
    Validate.Refuses idleHost .immediate 5 rowsAndText rowAndNumbers unshared rowErrors ∧
    ErrorRecord.flatten rowErrors =
      (ErrorRecord.groupsBy (·.path) rowErrors).map (fun g => (g.1.dotted, g.2)) ∧
    ErrorRecord.groupsBy (·.path) rowErrors =
      [([.text "rows", .index 0, .index 1], [some "Expected number"]),
        ([.text "rows", .index 1], [some "Expected array"]),
        ([.text "rows"], [some "too few", some "not four"]),
        ([.text "0"], [some "Expected string"])] := by
  have hrefuses : Validate.Refuses idleHost .immediate 5 rowsAndText rowAndNumbers unshared
    rowErrors := ⟨.safeParse, _, rfl⟩
  have hapart : ∀ t : Schema, t.Legible → t.KeysApart := fun t ht => ht.mono fun _ _ => trivial
  obtain ⟨-, -, -, hgroups, hlegible⟩ := messages_grouped_by_dotted_path idleHost
    (fun _ t => t.Legible) .immediate 5 rowsAndText rowAndNumbers unshared rowErrors
    (keeps_idleHost _) (fun _ t => hapart t) (hapart _ legible_rowsAndText)
    (fun _ _ h => by cases h) hrefuses
  exact ⟨hrefuses, hgroups (hlegible legible_rowsAndText fun _ _ ht => ht), by decide⟩

/-! ## Paths that are not told apart -/

/-- A text under a key in an object, and one under both keys with a point between
them. -/
def pointedKey : Schema :=
  .object [(.text "a", .object [(.text "b", .string {})] .strip), (.text "a.b", .string {})] .strip

/-- An object of a single text, with the name of the root as its key. -/
def rootKey : Schema := .object [(.text "root", .string {})] .strict

/-- Distinct paths do not stay distinct: a key with a point is taken for two keys, and
a key that is the name of the root for the root. -/
theorem distinct_paths_share_group :
    (∃ x y, Validate.Refuses idleHost .immediate 3 pointedKey
        (.mapping false [(.text "a", .mapping false [(.text "b", .int 1)]), (.text "a.b", .int 2)])
        unshared [x, y] ∧
      x.path = [.text "a", .text "b"] ∧ y.path = [.text "a.b"] ∧
      ¬ (x.path.dotted = y.path.dotted ↔ x.path = y.path) ∧
      ErrorRecord.flatten [x, y] = [("a.b", [x.message, y.message])]) ∧
    ∃ x y, Validate.Refuses idleHost .immediate 3 rootKey
        (.mapping false [(.text "root", .int 1), (.text "x", .int 2)]) unshared [x, y] ∧
      x.path = [.text "root"] ∧ y.path = [] ∧
      ¬ (x.path.dotted = y.path.dotted ↔ x.path = y.path) ∧
      ErrorRecord.flatten [x, y] = [("root", [x.message, y.message])] := by
  have hpoint : ¬ (Path.dotted [.text "a", .text "b"] = Path.dotted [.text "a.b"] ↔
    ([.text "a", .text "b"] : Path) = [.text "a.b"]) := by decide
  have hroot : ¬ (Path.dotted [.text "root"] = Path.dotted [] ↔ ([.text "root"] : Path) = []) := by
    decide
  exact ⟨⟨_, _, ⟨.safeParse, _, rfl⟩, rfl, rfl, hpoint, rfl⟩,
    ⟨_, _, ⟨.safeParse, _, rfl⟩, rfl, rfl, hroot, rfl⟩⟩

end Conform
