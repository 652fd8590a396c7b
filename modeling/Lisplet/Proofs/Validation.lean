import Mathlib.Data.List.Pairwise
import Lisplet.Manifest
import Lisplet.Proofs.Trimming

/-!
# Manifests that are accepted

A manifest is validated as it is written, and the source of its script is checked once more when
the script is fetched. The two know the same rules.

* `Manifest.Draft.Breaks`: what each rule asks of a manifest;
* `Manifest.Draft.mem_issues`, `Manifest.Draft.exists_sublist_issues`: a manifest is charged with
  the rules that it breaks, in a fixed order;
* `GitSource.check_eq_error_iff`, `GitSource.check_of_rules`: what each rule asks of a source;
* `Manifest.Draft.IsReady`: what an accepted manifest is good for;
* `Manifest.validation_agrees_with_fetching`: no source of an accepted manifest is refused.
-/

namespace Lisplet

namespace GitSource

open Text (Blank trim)

/-! ### Sources -/

theorem filled_cons (t : String) (texts : List String) :
    filled (t :: texts) = filled texts + if Text.isBlankText t then 0 else 1 := by
  rw [filled, List.countP_cons]
  cases Text.isBlankText t <;> rfl

theorem filled_pos_iff {texts : List String} : 0 < filled texts ↔ ∃ t ∈ texts, ¬ Blank t := by
  simp [filled, List.countP_pos_iff, ← Text.isBlankText_iff]

/-- More than one text is filled in unless of every two of them one is blank. -/
theorem one_lt_filled_iff {texts : List String} :
    1 < filled texts ↔ ¬ texts.Pairwise fun s t => Blank s ∨ Blank t := by
  induction texts with
  | nil => simp [filled]
  | cons t texts ih =>
    rw [filled_cons, List.pairwise_cons, not_and_or, ← ih]
    by_cases ht : Blank t
    · rw [if_pos (Text.isBlankText_iff.2 ht)]
      simp [ht]
    · rw [if_neg (mt Text.isBlankText_iff.1 ht)]
      have hothers : (¬ ∀ b ∈ texts, Blank t ∨ Blank b) ↔ 0 < filled texts := by
        simp [filled_pos_iff, ht]
      rw [hothers]
      omega

theorem filled_trim (texts : List String) : filled (texts.map trim) = filled texts := by
  induction texts with
  | nil => rfl
  | cons t texts ih => rw [List.map_cons, filled_cons, filled_cons, ih, Text.isBlankText_trim]

theorem required_eq_error_iff {misuse : GitMisuse} {t : String} :
    required misuse t = .error misuse ↔ Blank t := by
  rw [← Text.isBlankText_iff, required, Text.isBlankText]
  split <;> simp_all

theorem required_of_not_blank {misuse : GitMisuse} {t : String} (ht : ¬ Blank t) :
    required misuse t = .ok (trim t) :=
  if_neg (mt Text.isBlankText_iff.1 ht)

theorem revision_eq_error_iff {s : GitSource} {misuse : GitMisuse} :
    s.revision = .error misuse ↔ misuse = .manySelectors ∧ 1 < filled s.selectors := by
  rw [revision]
  split <;> simp_all [eq_comm]

theorem check_of_url {s : GitSource} (hurl : Blank s.url) : s.check = .error .urlMissing := by
  rw [check, required_eq_error_iff.2 hurl]
  rfl

theorem check_of_path {s : GitSource} (hurl : ¬ Blank s.url) (hpath : Blank s.path) :
    s.check = .error .pathMissing := by
  rw [check, required_of_not_blank hurl, required_eq_error_iff.2 hpath]
  rfl

theorem check_of_selectors {s : GitSource} (hurl : ¬ Blank s.url) (hpath : ¬ Blank s.path)
    (hmany : 1 < filled s.selectors) : s.check = .error .manySelectors := by
  rw [check, required_of_not_blank hurl, required_of_not_blank hpath, revision, if_pos hmany]
  rfl

theorem check_of_rules {s : GitSource} (hurl : ¬ Blank s.url) (hpath : ¬ Blank s.path)
    (hone : ¬ 1 < filled s.selectors) :
    ∃ q, s.check = .ok q ∧ q.descriptor = s.selection.2.1 := by
  rw [check, required_of_not_blank hurl, required_of_not_blank hpath, revision, if_neg hone]
  -- Left closed, the selection is not evaluated.
  generalize s.selection = chosen
  exact ⟨_, rfl, rfl⟩

/-- Of several broken rules the first one is reported. -/
theorem check_eq_error_iff {s : GitSource} {misuse : GitMisuse} : s.check = .error misuse ↔
    misuse = .urlMissing ∧ Blank s.url ∨
    misuse = .pathMissing ∧ ¬ Blank s.url ∧ Blank s.path ∨
    misuse = .manySelectors ∧ ¬ Blank s.url ∧ ¬ Blank s.path ∧
      1 < filled s.selectors := by
  by_cases hurl : Blank s.url
  · simp [check_of_url hurl, hurl, eq_comm]
  by_cases hpath : Blank s.path
  · simp [check_of_path hurl hpath, hurl, hpath, eq_comm]
  by_cases hmany : 1 < filled s.selectors
  · simp [check_of_selectors hurl hpath hmany, hurl, hpath, hmany, eq_comm]
  · obtain ⟨q, hq, -⟩ := check_of_rules hurl hpath hmany
    simp [hq, hurl, hpath, hmany]

/-- A source is described by the first selector that is filled in, if there is one. -/
theorem descriptor_selection (s : GitSource) : s.selection.2.1 =
    ((s.selectors.find? fun t => !Text.isBlankText t).map trim).getD "HEAD" := by
  simp only [selection, selectors, List.find?, Text.isBlankText]
  cases (trim s.rev).isEmpty <;> cases (trim s.tag).isEmpty <;>
    cases (trim s.branch).isEmpty <;> rfl

theorem descriptor_of_filled {s : GitSource} (hone : ¬ 1 < filled s.selectors)
    {t : String} (hmem : t ∈ s.selectors) (ht : ¬ Blank t) :
    s.selection.2.1 = trim t := by
  rw [one_lt_filled_iff, not_not] at hone
  rw [descriptor_selection]
  cases hfind : s.selectors.find? fun t => !Text.isBlankText t with
  | none =>
    have hblank := List.find?_eq_none.1 hfind t hmem
    simp [Text.isBlankText_iff, ht] at hblank
  | some u =>
    have hu : ¬ Blank u := by simpa [← Text.isBlankText_iff] using List.find?_some hfind
    -- Two selectors that are filled in are one and the same.
    have heq : t = u := by
      by_contra hne
      have hsymm : Std.Symm fun s t => Blank s ∨ Blank t := ⟨fun _ _ => Or.symm⟩
      exact (hone.forall hmem (List.mem_of_find?_eq_some hfind) hne).elim ht hu
    rw [heq, Option.map_some, Option.getD_some]

theorem descriptor_of_blank {s : GitSource} (hblank : ∀ t ∈ s.selectors, Blank t) :
    s.selection.2.1 = "HEAD" := by
  have hfind : (s.selectors.find? fun t => !Text.isBlankText t) = none :=
    List.find?_eq_none.2 fun t ht => by simp [Text.isBlankText_iff.2 (hblank t ht)]
  rw [descriptor_selection, hfind, Option.map_none, Option.getD_none]

end GitSource

namespace Manifest

open Text (Blank)

/-! ### The rules of manifests -/

/-- Every rule, in the order in which a manifest is charged with breaking it. -/
def Issue.inOrder (tokenizerReads parserReads : Int) : List Issue :=
  [.nameMissing, .mainMissing, .negativeTokenizerReads tokenizerReads,
    .negativeParserReads parserReads, .gitMissing, .manySelectors]

namespace Draft

/-- What it is to break each rule. -/
def Breaks (d : Draft) : Issue → Prop
  | .nameMissing => Blank d.name
  | .mainMissing => Blank d.main
  | .negativeTokenizerReads n => ∃ l, d.limits = some l ∧ l.tokenizerReads = some n ∧ n < 0
  | .negativeParserReads n => ∃ l, d.limits = some l ∧ l.parserReads = some n ∧ n < 0
  | .gitMissing => ∃ s, d.source = some s ∧ Blank s.git
  | .manySelectors => ∃ s, d.source = some s ∧
      ¬ s.selectors.Pairwise fun t u => Blank t ∨ Blank u

end Draft

theorem mem_negative {issue : Int → Issue} {limit : Option Int} {i : Issue} :
    i ∈ negative issue limit ↔ ∃ n, limit = some n ∧ n < 0 ∧ i = issue n := by
  cases limit with
  | none => simp [negative]
  | some n =>
    rw [negative]
    split
    · simp_all
    · simp_all only [Option.some.injEq, List.not_mem_nil, false_iff, not_exists]
      rintro m ⟨rfl, hneg, -⟩
      contradiction

theorem negative_sublist (issue : Int → Issue) (limit : Option Int) :
    (negative issue limit).Sublist [issue (limit.getD 0)] := by
  cases limit with
  | none => exact List.nil_sublist _
  | some n =>
    rw [negative]
    split
    · exact .refl _
    · exact List.nil_sublist _

theorem ite_sublist (p : Prop) [Decidable p] (i : Issue) :
    (if p then [i] else []).Sublist [i] := by
  split
  · exact .refl _
  · exact List.nil_sublist _

namespace Draft

/-- A manifest is charged with the rules that it breaks, and with all of them. -/
theorem mem_issues {d : Draft} {i : Issue} : i ∈ d.issues ↔ d.Breaks i := by
  obtain ⟨name, main, limits, source⟩ := d
  cases limits <;> cases source <;> cases i <;>
    simp [issues, DraftLimits.issues, DraftSource.issues, Breaks, mem_negative,
      Text.isBlankText_iff, GitSource.one_lt_filled_iff]

/-- The charges keep their order. -/
theorem exists_sublist_issues (d : Draft) : ∃ n m, d.issues.Sublist (Issue.inOrder n m) := by
  obtain ⟨n, m, hlimits⟩ : ∃ n m, ((d.limits.map (·.issues)).getD []).Sublist
      [.negativeTokenizerReads n, .negativeParserReads m] := by
    cases d.limits with
    | none => exact ⟨0, 0, List.nil_sublist _⟩
    | some l => exact ⟨_, _, (negative_sublist _ _).append (negative_sublist _ _)⟩
  have hsource : ((d.source.map (·.issues)).getD []).Sublist [.gitMissing, .manySelectors] := by
    cases d.source with
    | none => exact List.nil_sublist _
    | some s => exact (ite_sublist _ _).append (ite_sublist _ _)
  exact ⟨n, m, (((ite_sublist _ _).append (ite_sublist _ _)).append hlimits).append hsource⟩

theorem validate_eq_ok_iff {d : Draft} : d.validate = .ok () ↔ d.issues = [] := by
  rw [validate]
  cases d.issues <;> simp

theorem validate_eq_error_iff {d : Draft} {issues : List Issue} :
    d.validate = .error issues ↔ issues ≠ [] ∧ d.issues = issues := by
  rw [validate]
  cases d.issues with
  | nil => simp [eq_comm]
  | cons i rest =>
    constructor
    · rintro ⟨⟩
      exact ⟨List.cons_ne_nil i rest, rfl⟩
    · rintro ⟨-, rfl⟩
      rfl

/-- Validation ends in a list of issues that holds a given one. -/
def Lists (d : Draft) (i : Issue) : Prop := ∃ issues, d.validate = .error issues ∧ i ∈ issues

theorem lists_iff {d : Draft} {i : Issue} : d.Lists i ↔ d.Breaks i := by
  rw [← mem_issues]
  constructor
  · rintro ⟨issues, herror, hi⟩
    rwa [(validate_eq_error_iff.1 herror).2]
  · intro hi
    exact ⟨d.issues, validate_eq_error_iff.2 ⟨List.ne_nil_of_mem hi, rfl⟩, hi⟩

theorem not_breaks {d : Draft} (hd : d.validate = .ok ()) (i : Issue) : ¬ d.Breaks i := by
  rw [← mem_issues, validate_eq_ok_iff.1 hd]
  exact List.not_mem_nil

/-! ### From a draft to its request -/

/-- What the manifest of a draft has to be for its script to be looked for. -/
structure IsReady (d : Draft) (m : Manifest) : Prop where
  name : Text.IsTrimmed d.name m.name
  name_ne_empty : m.name ≠ ""
  main : Text.IsTrimmed d.main m.main
  main_ne_empty : m.main ≠ ""
  tokenizerReads_nonneg : 0 ≤ m.limits.tokenizerReads
  parserReads_nonneg : 0 ≤ m.limits.parserReads
  source : ∀ s, d.source = some s → ∃ g q, m.source = some g ∧ g.check = .ok q ∧
    (∀ t ∈ s.selectors, ¬ Blank t → Text.IsTrimmed t q.descriptor) ∧
    ((∀ t ∈ s.selectors, Blank t) → q.descriptor = "HEAD")

end Draft

theorem DraftSource.selectors_toGitSource (s : DraftSource) (path : String) :
    (s.toGitSource path).selectors = s.selectors.map Text.trim := rfl

namespace Draft

/-- A limit that is stated is not negative, and one that is not stated is zero. -/
theorem limits_nonneg {d : Draft} (hd : d.validate = .ok ()) (path : String) :
    0 ≤ (d.toManifest path).limits.tokenizerReads ∧
      0 ≤ (d.toManifest path).limits.parserReads := by
  have hlimit : ∀ limit : Option Int, (∀ n, limit = some n → ¬ n < 0) → 0 ≤ limit.getD 0 := by
    intro limit h
    cases limit with
    | none => exact Int.le_refl 0
    | some n => exact Int.not_lt.1 (h n rfl)
  rw [toManifest]
  cases hlimits : d.limits with
  | none => exact ⟨Int.le_refl 0, Int.le_refl 0⟩
  | some l =>
    constructor
    · exact hlimit _ fun n hn hneg =>
        not_breaks hd (.negativeTokenizerReads n) ⟨l, hlimits, hn, hneg⟩
    · exact hlimit _ fun n hn hneg => not_breaks hd (.negativeParserReads n) ⟨l, hlimits, hn, hneg⟩

theorem source_toManifest {d : Draft} {s : DraftSource} (hs : d.source = some s) (path : String) :
    (d.toManifest path).source = some (s.toGitSource (Text.trim d.main)) := by
  rw [toManifest, hs, Option.map_some]

/-- The source of an accepted manifest is described by its selector. -/
theorem check_toGitSource {d : Draft} {s : DraftSource} (hd : d.validate = .ok ())
    (hs : d.source = some s) : ∃ q, (s.toGitSource (Text.trim d.main)).check = .ok q ∧
      (∀ t ∈ s.selectors, ¬ Blank t → Text.IsTrimmed t q.descriptor) ∧
      ((∀ t ∈ s.selectors, Blank t) → q.descriptor = "HEAD") := by
  have hurl : ¬ Blank (Text.trim s.git) :=
    fun h => not_breaks hd .gitMissing ⟨s, hs, Text.blank_trim_iff.1 h⟩
  have hpath : ¬ Blank (Text.trim d.main) :=
    fun h => not_breaks hd .mainMissing (Text.blank_trim_iff.1 h)
  have hone : ¬ 1 < GitSource.filled (s.toGitSource (Text.trim d.main)).selectors := by
    rw [s.selectors_toGitSource, GitSource.filled_trim, GitSource.one_lt_filled_iff]
    exact fun h => not_breaks hd .manySelectors ⟨s, hs, h⟩
  obtain ⟨q, hq, hdescriptor⟩ : ∃ q, (s.toGitSource (Text.trim d.main)).check = .ok q ∧
      q.descriptor = (s.toGitSource (Text.trim d.main)).selection.2.1 :=
    GitSource.check_of_rules hurl hpath hone
  refine ⟨q, hq, fun t ht hfilled => ?_, fun hblank => ?_⟩
  · have hmem : Text.trim t ∈ (s.toGitSource (Text.trim d.main)).selectors := by
      rw [s.selectors_toGitSource]
      exact List.mem_map_of_mem ht
    rw [hdescriptor, GitSource.descriptor_of_filled hone hmem (mt Text.blank_trim_iff.1 hfilled),
      Text.trim_trim]
    exact Text.isTrimmed_trim t
  · rw [hdescriptor, GitSource.descriptor_of_blank]
    intro t ht
    rw [s.selectors_toGitSource, List.mem_map] at ht
    obtain ⟨u, hu, rfl⟩ := ht
    exact Text.blank_trim_iff.2 (hblank u hu)

theorem isReady_toManifest {d : Draft} (hd : d.validate = .ok ()) (path : String) :
    d.IsReady (d.toManifest path) where
  name := Text.isTrimmed_trim d.name
  name_ne_empty := mt Text.trim_eq_empty_iff.1 (not_breaks hd .nameMissing)
  main := Text.isTrimmed_trim d.main
  main_ne_empty := mt Text.trim_eq_empty_iff.1 (not_breaks hd .mainMissing)
  tokenizerReads_nonneg := (limits_nonneg hd path).1
  parserReads_nonneg := (limits_nonneg hd path).2
  source _ hs :=
    have ⟨q, hq⟩ := check_toGitSource hd hs
    ⟨_, q, source_toManifest hs path, hq⟩

/-- The rules of a source are broken as it is written or not at all. -/
theorem rules_toGitSource {d : Draft} {s : DraftSource} (hs : d.source = some s) :
    (Blank (s.toGitSource (Text.trim d.main)).url ↔ d.Lists .gitMissing) ∧
    (Blank (s.toGitSource (Text.trim d.main)).path ↔ d.Lists .mainMissing) ∧
    (1 < GitSource.filled (s.toGitSource (Text.trim d.main)).selectors ↔
      d.Lists .manySelectors) := by
  simp only [lists_iff, Breaks, hs, Option.some.injEq, exists_eq_left']
  refine ⟨Text.blank_trim_iff, Text.blank_trim_iff, ?_⟩
  rw [s.selectors_toGitSource, GitSource.filled_trim, GitSource.one_lt_filled_iff]

end Draft

/-- Validation fails if and only if some rule is broken, and then it lists the broken rules, each
of them once and in a fixed order. A manifest that it accepts is ready: its source makes a request,
which is described by the selector that is filled in. A source that is refused breaks a rule that
validation lists, and the first one of these. -/
theorem validation_agrees_with_fetching (path : String) (d : Draft) :
    ((∃ issues, d.validate = .error issues) ↔ ∃ i, d.Breaks i) ∧
    (∀ issues, d.validate = .error issues →
      (∀ i, i ∈ issues ↔ d.Breaks i) ∧ ∃ n m, issues.Sublist (Issue.inOrder n m)) ∧
    (d.validate = .ok () → d.IsReady (d.toManifest path)) ∧
    ∀ s, d.source = some s → ∃ g, (d.toManifest path).source = some g ∧
      (g.revision = .error .manySelectors ↔ d.Lists .manySelectors) ∧
      (GitSource.required .urlMissing g.url = .error .urlMissing ↔ d.Lists .gitMissing) ∧
      (GitSource.required .pathMissing g.path = .error .pathMissing ↔ d.Lists .mainMissing) ∧
      ∀ misuse, g.check = .error misuse ↔
        misuse = .urlMissing ∧ d.Lists .gitMissing ∨
        misuse = .pathMissing ∧ ¬ d.Lists .gitMissing ∧ d.Lists .mainMissing ∨
        misuse = .manySelectors ∧ ¬ d.Lists .gitMissing ∧ ¬ d.Lists .mainMissing ∧
          d.Lists .manySelectors := by
  refine ⟨?_, fun issues herror => ?_, fun hd => Draft.isReady_toManifest hd path, fun s hs => ?_⟩
  · simp only [← Draft.lists_iff, Draft.Lists]
    constructor
    · rintro ⟨issues, herror⟩
      obtain ⟨i, hi⟩ := List.exists_mem_of_ne_nil _ (Draft.validate_eq_error_iff.1 herror).1
      exact ⟨i, issues, herror, hi⟩
    · rintro ⟨i, issues, herror, -⟩
      exact ⟨issues, herror⟩
  · obtain ⟨-, rfl⟩ := Draft.validate_eq_error_iff.1 herror
    exact ⟨fun i => Draft.mem_issues, d.exists_sublist_issues⟩
  · obtain ⟨hurl, hpath, hmany⟩ := Draft.rules_toGitSource hs
    refine ⟨_, Draft.source_toManifest hs path, ?_, ?_, ?_, fun misuse => ?_⟩
    · rw [GitSource.revision_eq_error_iff, hmany, and_iff_right rfl]
    · rw [GitSource.required_eq_error_iff, hurl]
    · rw [GitSource.required_eq_error_iff, hpath]
    · rw [GitSource.check_eq_error_iff, hurl, hpath, hmany]

/-- A tag between blanks, and another selector of blanks alone. -/
theorem validation_agrees_with_fetching_at_tag :
    ∃ g q, ((Draft.mk " demo" "main\n" none (some ⟨"repo ", "\t", " v1 ", ""⟩)).toManifest
        "trivial.yml").source = some g ∧ g.check = .ok q ∧ Text.IsTrimmed " v1 " q.descriptor := by
  have hvalid : (Draft.mk " demo" "main\n" none (some ⟨"repo ", "\t", " v1 ", ""⟩)).validate =
      .ok () := by decide
  obtain ⟨g, q, hg, hq, hdescriptor, -⟩ :=
    ((validation_agrees_with_fetching "trivial.yml" _).2.2.1 hvalid).source _ rfl
  refine ⟨g, q, hg, hq, hdescriptor " v1 " (by decide) ?_⟩
  rw [← Text.isBlankText_iff]
  decide

end Manifest

end Lisplet
