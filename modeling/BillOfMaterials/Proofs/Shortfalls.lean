import BillOfMaterials.CommandLine.Program
import BillOfMaterials.Proofs.Pieces
import BillOfMaterials.Proofs.Report

/-!
# Reading a report on unknown binaries back

A report has two levels, told apart by nothing but indentation, and the names in it are written as they
are: a binary may be called like an archive, or like a line of a report. Yet the lines tell it all. The
third character of a line is a blank for a binary and no blank for an archive of the project, so the lines
fall into archives, each with its binaries. On a terminal the report follows the log; its first line is
the last one that is not indented, so it is found there as well, if the lines of the log are ended. Nothing
is said of a log that a name in it breaks off in the middle of a line.
-/
namespace BillOfMaterials

namespace Text

/-- What follows the last occurrence of a separator is determined. -/
theorem append_last_sep_inj {α : Type} [BEq α] [LawfulBEq α] {sep : α} {s t rest rest' : List α}
    (hs : sep ∉ rest) (ht : sep ∉ rest') (h : s ++ sep :: rest = t ++ sep :: rest') :
    rest = rest' := by
  have hreverse := congrArg List.reverse h
  simp only [List.reverse_append, List.reverse_cons, List.append_assoc, List.singleton_append]
    at hreverse
  have hs' : sep ∉ rest.reverse := by simpa using hs
  have ht' : sep ∉ rest'.reverse := by simpa using ht
  exact List.reverse_injective (append_sep_inj hs' ht' hreverse).1

theorem splitOn_line {line : List Char} (h : '\n' ∉ line) (rest : List Char) :
    splitOn '\n' (line ++ '\n' :: rest) = line :: splitOn '\n' rest := by
  rw [splitOn_append_sep, splitOn_of_not_mem h, List.singleton_append]

/-- The text is empty, or its last line is ended. -/
def EndsLine (s : String) : Prop := s = "" ∨ ∃ front, s = front ++ "\n"

/-- The lines of a text that ends its last line are not touched by what follows. -/
theorem EndsLine.splitOn_append {s : String} (h : EndsLine s) :
    ∃ lines, ∀ rest, splitOn '\n' (s.toList ++ rest) = lines ++ splitOn '\n' rest := by
  rcases h with rfl | ⟨front, rfl⟩
  · exact ⟨[], fun rest => rfl⟩
  · refine ⟨splitOn '\n' front.toList, fun rest => ?_⟩
    have hend : "\n".toList = ['\n'] := rfl
    rw [String.toList_append, hend, List.append_assoc]
    exact splitOn_append_sep front.toList rest

end Text

namespace Shortfall

open Text (splitOn EndsLine)

/-- The archive is called as those of the project are, and no name holds a line break. -/
structure IsPlain (s : Shortfall) : Prop where
  project : Text.startsWith s.archive "apache-tomee-" = true
  archive : '\n' ∉ s.archive.toList
  unknown : ∀ name ∈ s.unknown, '\n' ∉ name.toList

/-! ## The lines of a report -/

def archiveLine (archive : String) : List Char := ("  " ++ archive).toList

def binaryLine (name : String) : List Char := ("    - " ++ name).toList

theorem archiveLine_eq (archive : String) : archiveLine archive = ' ' :: ' ' :: archive.toList :=
  String.toList_append

theorem binaryLine_eq (name : String) :
    binaryLine name = ' ' :: ' ' :: ' ' :: ' ' :: '-' :: ' ' :: name.toList :=
  String.toList_append

def linesOf (s : Shortfall) : List (List Char) :=
  archiveLine s.archive :: s.unknown.map binaryLine

def headline : List Char :=
  "Unable to find matching maven coordinates from the following distributions.".toList

def binariesText (names : List String) : List Char :=
  (String.join (names.map fun name => "    - " ++ name ++ "\n")).toList

theorem binariesText_cons (name : String) (names : List String) :
    binariesText (name :: names) = binaryLine name ++ '\n' :: binariesText names := by
  unfold binariesText binaryLine
  rw [List.map_cons, String.join_cons, String.toList_append, String.toList_append, List.append_assoc]
  rfl

theorem toList_lines (s : Shortfall) :
    s.lines.toList = archiveLine s.archive ++ '\n' :: binariesText s.unknown := by
  unfold lines archiveLine binariesText
  rw [String.toList_append, String.toList_append, List.append_assoc]
  rfl

theorem splitOn_binariesText {names : List String} (h : ∀ name ∈ names, '\n' ∉ name.toList)
    (rest : List Char) :
    splitOn '\n' (binariesText names ++ rest) = names.map binaryLine ++ splitOn '\n' rest := by
  induction names with
  | nil => rfl
  | cons name names ih =>
    rw [List.forall_mem_cons] at h
    have hline : '\n' ∉ binaryLine name := by simpa [binaryLine_eq] using h.1
    rw [binariesText_cons, List.append_assoc, List.cons_append, Text.splitOn_line hline, ih h.2]
    rfl

theorem splitOn_lines {s : Shortfall} (h : s.IsPlain) (rest : List Char) :
    splitOn '\n' (s.lines.toList ++ rest) = s.linesOf ++ splitOn '\n' rest := by
  have hline : '\n' ∉ archiveLine s.archive := by simpa [archiveLine_eq] using h.archive
  rw [toList_lines, List.append_assoc, List.cons_append, Text.splitOn_line hline,
    splitOn_binariesText h.unknown]
  rfl

theorem splitOn_join {ss : List Shortfall} (h : ∀ s ∈ ss, s.IsPlain) (rest : List Char) :
    splitOn '\n' ((String.join (ss.map lines)).toList ++ rest) =
      ss.flatMap linesOf ++ splitOn '\n' rest := by
  induction ss with
  | nil => rfl
  | cons s ss ih =>
    rw [List.forall_mem_cons] at h
    rw [List.map_cons, String.join_cons, String.toList_append, List.append_assoc, splitOn_lines h.1,
      ih h.2, List.flatMap_cons, List.append_assoc]

theorem toList_report (ss : List Shortfall) :
    (report ss).toList = headline ++ '\n' :: (String.join (ss.map lines)).toList := by
  have hfirst :
      "Unable to find matching maven coordinates from the following distributions.\n".toList =
        headline ++ ['\n'] := by
    decide +kernel
  calc (report ss).toList
      = _ ++ (String.join (ss.map lines)).toList := String.toList_append
    _ = (headline ++ ['\n']) ++ (String.join (ss.map lines)).toList := congrArg (· ++ _) hfirst
    _ = headline ++ '\n' :: (String.join (ss.map lines)).toList := List.append_assoc ..

/-- A report is its first line and the lines on each archive. -/
theorem splitOn_report {ss : List Shortfall} (h : ∀ s ∈ ss, s.IsPlain) (rest : List Char) :
    splitOn '\n' ((report ss).toList ++ rest) =
      headline :: (ss.flatMap linesOf ++ splitOn '\n' rest) := by
  have hline : '\n' ∉ headline := by decide +kernel
  rw [toList_report, List.append_assoc, List.cons_append, Text.splitOn_line hline, splitOn_join h]

/-! ## What the lines tell -/

theorem archiveLine_ne_binaryLine {s : Shortfall} (h : s.IsPlain) (name : String) :
    archiveLine s.archive ≠ binaryLine name := by
  obtain ⟨rest, hrest⟩ := List.isPrefixOf_iff_prefix.1 h.project
  rw [archiveLine_eq, binaryLine_eq, ← hrest]
  intro hline
  cases congrArg (·[2]?) hline

theorem archiveLine_injective {archive archive' : String}
    (h : archiveLine archive = archiveLine archive') : archive = archive' :=
  String.append_right_inj _ |>.1 (String.toList_inj.1 h)

theorem binaryLine_injective {name name' : String} (h : binaryLine name = binaryLine name') :
    name = name' :=
  String.append_right_inj _ |>.1 (String.toList_inj.1 h)

/-- Where the lines on binaries end is told by what follows, if that is no such line. -/
theorem binaryLines_append_inj {names names' : List String} {rest rest' : List (List Char)}
    (hrest : ∀ name, rest.head? ≠ some (binaryLine name))
    (hrest' : ∀ name, rest'.head? ≠ some (binaryLine name))
    (h : names.map binaryLine ++ rest = names'.map binaryLine ++ rest') :
    names = names' ∧ rest = rest' := by
  induction names generalizing names' with
  | nil =>
    cases names' with
    | nil => exact ⟨rfl, h⟩
    | cons name names' => exact absurd (congrArg List.head? h) (hrest name)
  | cons name names ih =>
    cases names' with
    | nil => exact absurd (congrArg List.head? h).symm (hrest' name)
    | cons name' names' =>
      obtain ⟨hline, htail⟩ := List.cons.inj h
      obtain ⟨rfl, rfl⟩ := ih htail
      exact ⟨by rw [binaryLine_injective hline], rfl⟩

theorem head?_linesOf {ss : List Shortfall} (h : ∀ s ∈ ss, s.IsPlain) (name : String) :
    (ss.flatMap linesOf).head? ≠ some (binaryLine name) := by
  cases ss with
  | nil => nofun
  | cons s ss =>
    intro hhead
    exact archiveLine_ne_binaryLine (h s List.mem_cons_self) name (Option.some.inj hhead)

/-- The lines on archives determine the archives and their binaries. -/
theorem linesOf_injective {ss ss' : List Shortfall} (h : ∀ s ∈ ss, s.IsPlain)
    (h' : ∀ s ∈ ss', s.IsPlain) (hlines : ss.flatMap linesOf = ss'.flatMap linesOf) : ss = ss' := by
  induction ss generalizing ss' with
  | nil =>
    cases ss' with
    | nil => rfl
    | cons s' ss' => cases hlines
  | cons s ss ih =>
    cases ss' with
    | nil => cases hlines
    | cons s' ss' =>
      rw [List.forall_mem_cons] at h h'
      obtain ⟨harchive, hrest⟩ := List.cons.inj hlines
      obtain ⟨hunknown, hothers⟩ :=
        binaryLines_append_inj (head?_linesOf h.2) (head?_linesOf h'.2) hrest
      have hsame : s = s' := by
        obtain ⟨archive, unknown⟩ := s
        obtain ⟨archive', unknown'⟩ := s'
        exact congrArg₂ _ (archiveLine_injective harchive) hunknown
      rw [hsame, ih h.2 h'.2 hothers]

/-- The first line of a report is no line on an archive. -/
theorem headline_not_mem_linesOf (ss : List Shortfall) : headline ∉ ss.flatMap linesOf := by
  intro hmem
  obtain ⟨s, -, hline⟩ := List.mem_flatMap.1 hmem
  have hblank : headline.head? = some ' ' := by
    rcases List.mem_cons.1 hline with harchive | hbinary
    · rw [harchive, archiveLine_eq]
      rfl
    · obtain ⟨name, -, hname⟩ := List.mem_map.1 hbinary
      rw [← hname, binaryLine_eq]
      rfl
  exact absurd hblank (by decide +kernel)

/-! ## What is printed -/

/-- The program, once its arguments are read, refuses the batch for unknown binaries, and this is the
log with the reason behind it. The lines of the log are ended. -/
def Printed (ss : List Shortfall) (complaints : String) : Prop :=
  ∃ t hasScratch home a,
    (Program.work t hasScratch home a).2.outcome = .error (.generation (.incomplete ss)) ∧
      EndsLine (Program.logText a.logLevel (Program.work t hasScratch home a).2.log) ∧
      complaints = (Program.execute t hasScratch home a).complaints

theorem Printed.eq_append {ss : List Shortfall} {complaints : String} (h : Printed ss complaints) :
    ∃ log, EndsLine log ∧ complaints = log ++ report ss ++ "\n" := by
  obtain ⟨t, hasScratch, home, a, hwork, hlog, rfl⟩ := h
  refine ⟨_, hlog, ?_⟩
  unfold Program.execute
  simp only [hwork]
  rfl

theorem Printed.lines {ss : List Shortfall} {complaints : String} (hs : ∀ s ∈ ss, s.IsPlain)
    (h : Printed ss complaints) :
    ∃ before, splitOn '\n' complaints.toList =
      before ++ headline :: (ss.flatMap linesOf ++ [[], []]) := by
  obtain ⟨log, hlog, rfl⟩ := h.eq_append
  obtain ⟨before, hbefore⟩ := hlog.splitOn_append
  refine ⟨before, ?_⟩
  rw [String.toList_append, String.toList_append, List.append_assoc, hbefore, splitOn_report hs]
  rfl

/-- Reports on archives of the project are one text exactly if they report the same: the same archives
in the same order, each with the same unknown binaries in the same order. What is printed when a batch
is refused, after whatever was logged before, tells as much. -/
theorem report_eq_iff {ss ss' : List Shortfall} (h : ∀ s ∈ ss, s.IsPlain)
    (h' : ∀ s ∈ ss', s.IsPlain) :
    (report ss = report ss' ↔ ss = ss') ∧
      ∀ complaints, Printed ss complaints → Printed ss' complaints → ss = ss' := by
  refine ⟨⟨fun heq => ?_, congrArg report⟩, fun complaints hp hp' => ?_⟩
  · have hlines : splitOn '\n' ((report ss).toList ++ []) =
        splitOn '\n' ((report ss').toList ++ []) := by
      rw [heq]
    rw [splitOn_report h, splitOn_report h', List.cons.injEq, List.append_cancel_right_eq] at hlines
    exact linesOf_injective h h' hlines.2
  · obtain ⟨before, hlines⟩ := hp.lines h
    obtain ⟨before', hlines'⟩ := hp'.lines h'
    have hlast (ss : List Shortfall) : headline ∉ ss.flatMap linesOf ++ [[], []] := by
      rw [List.mem_append, not_or]
      exact ⟨headline_not_mem_linesOf ss, by decide +kernel⟩
    have hrest := Text.append_last_sep_inj (hlast ss) (hlast ss') (hlines.symm.trans hlines')
    exact linesOf_injective h h' (List.append_cancel_right hrest)

/-- One archive with one binary, which nothing knows. -/
def lost : List Shortfall := [⟨"apache-tomee-plus-8.0.6.zip", ["lost.jar"]⟩]

/-- A call that is told to log errors only. -/
def quietly : Arguments :=
  { archives := .ofString "dists", repository := some (.ofString "m2"), quiet := true }

theorem lost_printed : ∃ complaints, Printed lost complaints := by
  refine ⟨_, Generation.lost, true, none, quietly, ?_, .inl ?_, rfl⟩
  · have hrun : (Generation.run Generation.lost true {} (quietly.toRequest none)).2.outcome =
        .error (.incomplete lost) :=
      Generation.error_of_map_error (by decide +kernel)
    have hwork : (Program.work Generation.lost true none quietly).2.outcome =
        (Generation.run Generation.lost true {} (quietly.toRequest none)).2.outcome.mapError
          .generation := rfl
    rw [hwork, hrun]
    rfl
  · decide +kernel

/-- Binaries called like lines of a report do not make two reports one, and what was printed for a
batch tells which binary is unknown. -/
theorem lost_told :
    report [⟨"apache-tomee-a.zip", ["- x.jar", "  apache-tomee-b.zip"]⟩] ≠
        report [⟨"apache-tomee-a.zip", ["- x.jar"]⟩, ⟨"apache-tomee-b.zip", []⟩] ∧
      ∃ complaints, Printed lost complaints ∧
        ∀ ss : List Shortfall, (∀ s ∈ ss, s.IsPlain) → Printed ss complaints → ss = lost := by
  have hone : ∀ s ∈ [(⟨"apache-tomee-a.zip", ["- x.jar", "  apache-tomee-b.zip"]⟩ : Shortfall)],
      s.IsPlain := by
    simp only [List.forall_mem_singleton]
    exact ⟨by decide, by decide, by decide⟩
  have htwo : ∀ s ∈ [(⟨"apache-tomee-a.zip", ["- x.jar"]⟩ : Shortfall), ⟨"apache-tomee-b.zip", []⟩],
      s.IsPlain := by
    simp only [List.forall_mem_cons]
    exact ⟨⟨by decide, by decide, by decide⟩, ⟨by decide, by decide, by decide⟩, nofun⟩
  have hlost : ∀ s ∈ lost, s.IsPlain := by
    simp only [lost, List.forall_mem_singleton]
    exact ⟨by decide, by decide, by decide⟩
  obtain ⟨complaints, hprinted⟩ := lost_printed
  refine ⟨fun heq => absurd ((report_eq_iff hone htwo).1.1 heq) (by decide), complaints, hprinted, ?_⟩
  exact fun ss hss hp => (report_eq_iff hss hlost).2 complaints hp hprinted

end Shortfall
end BillOfMaterials
