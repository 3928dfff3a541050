import AttributeLint.Checker
import AttributeLint.Proofs.Analysis.Locality
import AttributeLint.Proofs.AttributeName.LastIdentifier
import AttributeLint.Proofs.Message.Segmentation
import AttributeLint.Proofs.Scan.Violations
import AttributeLint.Proofs.Text.Backsteps
import AttributeLint.Proofs.Token.RawLines

/-!
# OutputLines — the lines that diagnostics are printed on

A diagnostic is printed with a line feed behind it, and its message has the text of an argument in
it as the argument was decoded. So the lines of an output are the lines of the messages, and those
that begin a message have its heading in front (`lines_render_text`). One line for each diagnostic
is printed exactly if no line feed gets into a message, which a rule lets happen where its template
has a place for the text or for the character (`KeepsLine`).
-/

namespace AttributeLint

open Text

/-! ## Lines and line feeds -/

namespace Text

variable {u v : List Char}

/-- What has no line feed in it, put in front of a text, is put in front of its first line. -/
theorem lines_append_of_not_mem (hu : '\n' ∉ u) (v : List Char) :
    lines (u ++ v) = (lines v).modifyHead (u ++ ·) := by
  induction u with
  | nil => exact (congrFun List.modifyHead_id (lines v)).symm
  | cons c u ih =>
    obtain ⟨hc, hu⟩ := List.ne_and_not_mem_of_not_mem_cons hu
    have htail : lines (c :: (u ++ v)) = (lines (u ++ v)).modifyHead (c :: ·) := by
      rw [lines, List.splitOn_cons_eq_if_modifyHead, if_neg (by simpa using Ne.symm hc), lines]
    rw [List.cons_append, htail, ih hu, List.modifyHead_modifyHead]
    rfl

/-- The lines of texts that each have a line feed behind them. -/
theorem lines_flatMap_feed (texts : List (List Char)) :
    lines (texts.flatMap (· ++ ['\n'])) = texts.flatMap lines ++ [[]] := by
  induction texts with
  | nil => rfl
  | cons text texts ih =>
    have hfirst : lines (text ++ '\n' :: texts.flatMap (· ++ ['\n'])) =
        lines text ++ lines (texts.flatMap (· ++ ['\n'])) := List.splitOn_append_cons_self text _
    rw [List.flatMap_cons, List.append_assoc, List.singleton_append, hfirst, ih, List.flatMap_cons,
      List.append_assoc]

theorem feed_not_mem_toString (n : Nat) : '\n' ∉ (toString n).toList := by
  intro hmem
  rw [Nat.toString_eq_repr, Nat.toList_repr] at hmem
  exact absurd (Nat.isDigit_of_mem_toDigits (by decide) (by decide) hmem) (by decide)

end Text

/-! ## Messages -/

namespace Message

/-- The template has a placeholder with the number. -/
def Uses (template : String) (n : Nat) : Prop :=
  ∃ s ∈ segments template.toList, s.number? = some n

variable {template : String} {arguments : List String} {s : Segment}

theorem Segment.feed_mem_fill_iff (hs : '\n' ∉ s.written) :
    '\n' ∈ s.fill arguments ↔
      ∃ n argument, s.number? = some n ∧ arguments[n]? = some argument ∧
        '\n' ∈ argument.toList := by
  cases s with
  | literal c => simpa [Segment.fill, Segment.number?, Segment.written] using hs
  | placeholder digits =>
    rw [Segment.fill, Segment.number?]
    cases hread : (Text.number? digits).bind (arguments[·]?) with
    | none =>
      rw [Option.bind_eq_none_iff] at hread
      constructor
      · intro hmem
        exact absurd hmem hs
      · rintro ⟨n, argument, hn, hargument, -⟩
        rw [hread n hn] at hargument
        cases hargument
    | some argument =>
      obtain ⟨n, hn, hargument⟩ := Option.bind_eq_some_iff.mp hread
      constructor
      · intro hmem
        exact ⟨n, argument, hn, hargument, hmem⟩
      · rintro ⟨n', argument', hn', hargument', hmem⟩
        cases hn.symm.trans hn'
        cases hargument.symm.trans hargument'
        exact hmem

/-- A line feed in a message comes from an argument that the template has a place for. -/
theorem feed_mem_fill_iff (htemplate : '\n' ∉ template.toList) :
    '\n' ∈ (fill template arguments).toList ↔
      ∃ n argument, Uses template n ∧ arguments[n]? = some argument ∧ '\n' ∈ argument.toList := by
  have hwritten : ∀ s ∈ segments template.toList, '\n' ∉ s.written := by
    intro s hs hmem
    apply htemplate
    rw [← (segmentation_segments template.toList).written]
    exact List.mem_flatMap_of_mem hs hmem
  rw [fill, String.toList_ofList, List.mem_flatMap]
  constructor
  · rintro ⟨s, hs, hmem⟩
    obtain ⟨n, argument, hn, hrest⟩ := (s.feed_mem_fill_iff (hwritten s hs)).mp hmem
    exact ⟨n, argument, ⟨s, hs, hn⟩, hrest⟩
  · rintro ⟨n, argument, ⟨s, hs, hn⟩, hrest⟩
    exact ⟨s, hs, (s.feed_mem_fill_iff (hwritten s hs)).mpr ⟨n, argument, hn, hrest⟩⟩

end Message

namespace Diagnostic

variable {sources : SourceMap} {file : SourceFile} {d : Diagnostic}

/-! ## Printed diagnostics -/

/-- What stands in front of the message: path, line, column, severity and rule. -/
def heading (file : SourceFile) (d : Diagnostic) : String :=
  let place := file.lineColumn d.location.span.start
  d.location.path ++ ":" ++ toString place.line ++ ":" ++ toString place.column ++ ": " ++
    d.severity.word ++ "[" ++ d.ruleId ++ "]: "

/-- The lines of the message, the first one behind the heading. -/
def printedLines (file : SourceFile) (d : Diagnostic) : List (List Char) :=
  (lines d.message.toList).modifyHead ((d.heading file).toList ++ ·)

theorem render_eq_append (h : sources.resolve d.location.file = .ok file) :
    d.render sources = d.heading file ++ d.message := by
  have hget : sources.get? d.location.file = some file := by
    rw [SourceMap.resolve] at h
    split at h
    · cases h
      assumption
    · cases h
  rw [render, hget]
  simp only [body, heading, String.append_assoc]

theorem feed_not_mem_heading (file : SourceFile) (hpath : '\n' ∉ d.location.path.toList)
    (hrule : '\n' ∉ d.ruleId.toList) : '\n' ∉ (d.heading file).toList := by
  have hword : '\n' ∉ d.severity.word.toList := by cases d.severity <;> decide
  simp only [heading, String.toList_append, List.mem_append, not_or]
  exact ⟨⟨⟨⟨⟨⟨⟨⟨⟨hpath, by decide⟩, feed_not_mem_toString _⟩, by decide⟩, feed_not_mem_toString _⟩,
    by decide⟩, hword⟩, by decide⟩, hrule⟩, by decide⟩

/-- Where no line feed is in front of its message, a diagnostic is printed on the lines of that. -/
theorem lines_render (h : sources.resolve d.location.file = .ok file)
    (hheading : '\n' ∉ (d.heading file).toList) :
    lines (d.render sources).toList = d.printedLines file := by
  rw [render_eq_append h, String.toList_append, lines_append_of_not_mem hheading, printedLines]

theorem count_feed_render (h : sources.resolve d.location.file = .ok file)
    (hheading : '\n' ∉ (d.heading file).toList) :
    (d.render sources).toList.count '\n' = d.message.toList.count '\n' := by
  rw [render_eq_append h, String.toList_append, List.count_append,
    List.count_eq_zero_of_not_mem hheading, Nat.zero_add]

theorem printedLines_of_not_mem (file : SourceFile) (h : '\n' ∉ d.message.toList) :
    d.printedLines file = [(d.heading file ++ d.message).toList] := by
  rw [printedLines, lines_of_not_mem h, String.toList_append]
  rfl

end Diagnostic

/-! ## Rules -/

/-- No line feed gets into the messages of the rule about a text: its template has no place for the
character where that is a line feed, and none for the text if this has one. -/
def KeepsLine (rule : Rule) (text : String) : Prop :=
  ∀ c ∈ text.toList, rule.disallows c →
    (Message.Uses rule.descriptor.messageFormat 0 → c ≠ '\n') ∧
      (Message.Uses rule.descriptor.messageFormat 1 → '\n' ∉ text.toList)

/-- The same of all strings of the attributes of the enabled rules. -/
def KeepsLines (registry : Registry) (sources : List (String × String)) : Prop :=
  ∀ rule ∈ registry.enabledRules, ∀ source ∈ sources, ∀ u ∈ Usage.ofSource source.2,
    rule.attributeName.isWrittenAs u.name → ∀ text, u.singleString = .ok text → KeepsLine rule text

namespace Expected

variable {rule : Rule} {file : FileId} {path text : String} {u : Usage} {d : Diagnostic}

theorem feed_mem_format_iff (hformat : '\n' ∉ rule.descriptor.messageFormat.toList) (c : Char)
    (text : String) :
    '\n' ∈ (rule.descriptor.format [String.singleton c, text]).toList ↔
      Message.Uses rule.descriptor.messageFormat 0 ∧ c = '\n' ∨
        Message.Uses rule.descriptor.messageFormat 1 ∧ '\n' ∈ text.toList := by
  rw [Descriptor.format, Message.feed_mem_fill_iff hformat]
  constructor
  · rintro ⟨n, argument, huses, hargument, hmem⟩
    match n with
    | 0 =>
      cases hargument
      exact .inl ⟨huses, by simpa [eq_comm] using hmem⟩
    | 1 =>
      cases hargument
      exact .inr ⟨huses, hmem⟩
  · rintro (⟨huses, rfl⟩ | ⟨huses, hmem⟩)
    · exact ⟨0, _, huses, rfl, by simp⟩
    · exact ⟨1, _, huses, rfl, hmem⟩

theorem message_character (p : (Char × Nat) × Nat) :
    (character rule file path u.targetStart text p).message =
      rule.descriptor.format [String.singleton p.1.1, text] := rfl

/-- What a rule reports about a usage with a string. -/
theorem mem_ofUsage_iff :
    d ∈ ofUsage rule file path u ↔ rule.attributeName.isWrittenAs u.name ∧
      ∃ text, u.singleString = .ok text ∧ ∃ p ∈ disallowed rule text.toList,
        d = character rule file path u.targetStart text p := by
  rw [ofUsage, reaching_eq]
  by_cases hu : rule.attributeName.isWrittenAs u.name
  · rw [if_pos hu]
    rcases u.singleString_cases with ⟨binding, text, hc, hs⟩ | ⟨hc, reason, hs, -⟩
    · rw [hc, hs]
      simp only [hu, true_and, List.mem_map, Except.ok.injEq, exists_eq_left', eq_comm (a := d)]
    · rw [hs]
      split
      · rename_i binding text heq
        exact absurd heq (hc binding text)
      · simp
  · rw [if_neg hu]
    simp [hu]

/-- The messages about a usage stay on one line if the rule keeps its string on one. -/
theorem feed_not_mem_ofUsage_iff (hformat : '\n' ∉ rule.descriptor.messageFormat.toList)
    (file : FileId) (path : String) (u : Usage) :
    (∀ d ∈ ofUsage rule file path u, '\n' ∉ d.message.toList) ↔
      (rule.attributeName.isWrittenAs u.name →
        ∀ text, u.singleString = .ok text → KeepsLine rule text) := by
  constructor
  · intro h hu text htext c hc hdisallows
    obtain ⟨index, hindex⟩ := List.getElem?_of_mem hc
    obtain ⟨number, hp⟩ := Scan.exists_mem_disallowed_iff.mpr
      ⟨hindex, Scan.disallows_iff.mp hdisallows⟩
    have hfeed := h _ (mem_ofUsage_iff.mpr ⟨hu, text, htext, _, hp, rfl⟩)
    rw [message_character, feed_mem_format_iff hformat, not_or, not_and, not_and] at hfeed
    exact hfeed
  · intro h d hd
    obtain ⟨hu, text, htext, ⟨⟨c, index⟩, number⟩, hp, rfl⟩ := mem_ofUsage_iff.mp hd
    obtain ⟨hindex, hdisallows⟩ := Scan.exists_mem_disallowed_iff.mp ⟨number, hp⟩
    obtain ⟨hcharacter, htext⟩ := h hu text htext c (List.mem_of_getElem? hindex)
      (Scan.disallows_iff.mpr hdisallows)
    rw [message_character, feed_mem_format_iff hformat, not_or, not_and, not_and]
    exact ⟨hcharacter, htext⟩

theorem feed_not_mem_reason (args : List Argument) : '\n' ∉ (reason args).toList := by
  match args with
  | [] => decide
  | [_] =>
    show '\n' ∉ "argument is not a string literal".toList
    decide
  | a :: b :: rest =>
    rw [reason, String.toList_append, List.mem_append, not_or]
    · exact ⟨feed_not_mem_toString _, by decide⟩
    · simp
    · simp

theorem feed_not_mem_ofMalformedUsage {last : String} (hname : Qualified u.name last)
    (hd : d ∈ ofMalformedUsage rule file path u) : '\n' ∉ d.message.toList := by
  rw [ofMalformedUsage] at hd
  split at hd
  · split at hd
    · cases hd
    · cases List.mem_singleton.mp hd
      have hname : '\n' ∉ u.name.toList := fun hmem => hname.not_isBlank _ hmem (by decide)
      simp only [String.toList_append, List.mem_append, not_or]
      exact ⟨⟨⟨⟨by decide, hname⟩, by decide⟩, feed_not_mem_reason _⟩, by decide⟩
  · cases hd

/-- A diagnostic about a usage has the path of its file, and the identifier of the rule or of the
one for malformed usages. -/
theorem path_and_ruleId_of_mem
    (hd : d ∈ ofUsage rule file path u ∨ d ∈ ofMalformedUsage rule file path u) :
    d.location.path = path ∧ (d.ruleId = rule.descriptor.id ∨ d.ruleId = "ESG0002") := by
  rcases hd with hd | hd
  · obtain ⟨-, text, -, p, -, rfl⟩ := mem_ofUsage_iff.mp hd
    exact ⟨rfl, .inl rfl⟩
  · rw [location_of_mem_ofMalformedUsage hd]
    rw [ofMalformedUsage] at hd
    split at hd
    · split at hd
      · cases hd
      · cases List.mem_singleton.mp hd
        exact ⟨rfl, .inr rfl⟩
    · cases hd

end Expected

/-! ## Whole outputs -/

namespace Outcome

variable {registry : Registry} {id : Nat} {sources : List (String × String)} {rule : Rule}
  {d : Diagnostic}

/-- What a rule reports about sources lies in one of them, and no line feed is in its heading. -/
theorem exists_file_of_mem_ofRule (hpaths : ∀ source ∈ sources, '\n' ∉ source.1.toList)
    (hrule : '\n' ∉ rule.descriptor.id.toList)
    (hd : d ∈ Expected.ofRule id (sources.map fun source => .parsed source.1 source.2) rule) :
    ∃ file, (Compilation.ofSources id sources).sources.resolve d.location.file = .ok file ∧
      '\n' ∉ (d.heading file).toList := by
  obtain ⟨a, i, ha, u, -, hd⟩ := Expected.exists_of_mem_ofRule hd
  obtain ⟨source, hsource, rfl⟩ : ∃ source ∈ sources, Addition.parsed source.1 source.2 = a :=
    List.mem_map.mp (List.fst_mem_of_mem_zipIdx ha)
  obtain ⟨hpath, hruleId⟩ := Expected.path_and_ruleId_of_mem hd
  have hfile : d.location.file = ⟨id, i⟩ := by
    rcases hd with hd | hd
    · exact (Expected.local_ofUsage rule).lies _ _ u d hd
    · exact (Expected.local_ofMalformedUsage rule).lies _ _ u d hd
  have hresolve := (Compilation.holds_build id _).resolve ha
  rw [← Compilation.ofSources_eq_build, ← hfile] at hresolve
  refine ⟨_, hresolve, d.feed_not_mem_heading _ ?_ ?_⟩
  · rw [hpath]
    exact hpaths source hsource
  · rcases hruleId with hruleId | hruleId
    · rwa [hruleId]
    · rw [hruleId]
      decide

/-- No message has a line feed in it exactly if the rules keep their strings on one line. -/
theorem feed_not_mem_iff (id : Nat) (sources : List (String × String))
    (hformats : ∀ rule ∈ registry.enabledRules, '\n' ∉ rule.descriptor.messageFormat.toList) :
    (∀ d ∈ registry.enabledRules.flatMap
        (Expected.ofRule id (sources.map fun source => .parsed source.1 source.2)),
      '\n' ∉ d.message.toList) ↔ KeepsLines registry sources := by
  constructor
  · intro h rule hrule source hsource u hu
    obtain ⟨i, hi⟩ := List.getElem?_of_mem (List.mem_map_of_mem (f := fun source =>
      Addition.parsed source.1 source.2) hsource)
    refine (Expected.feed_not_mem_ofUsage_iff (hformats rule hrule) ⟨id, i⟩ source.1 u).mp
      fun d hd => h d (List.mem_flatMap_of_mem hrule ?_)
    exact List.mem_append_left _ (Expected.mem_overUsages_iff.mpr
      ⟨_, i, List.mem_zipIdx_iff_getElem?.mpr hi, u, hu, hd⟩)
  · intro h d hd
    obtain ⟨rule, hrule, hd⟩ := List.mem_flatMap.mp hd
    obtain ⟨a, i, ha, u, hu, hd⟩ := Expected.exists_of_mem_ofRule hd
    obtain ⟨source, hsource, rfl⟩ : ∃ source ∈ sources, Addition.parsed source.1 source.2 = a :=
      List.mem_map.mp (List.fst_mem_of_mem_zipIdx ha)
    rcases hd with hd | hd
    · exact (Expected.feed_not_mem_ofUsage_iff (hformats rule hrule) _ _ u).mpr
        (h rule hrule source hsource u hu) d hd
    · obtain ⟨last, hlast⟩ := Usage.qualified_of_mem_ofSource hu
      exact Expected.feed_not_mem_ofMalformedUsage hlast hd

/-- Printed diagnostics, each of which has no line feed in its heading. -/
theorem lines_flatMap_render {map : SourceMap} {ds : List Diagnostic}
    (h : ∀ d ∈ ds, ∃ file, map.resolve d.location.file = .ok file ∧
      '\n' ∉ (d.heading file).toList) :
    (∃ blocks, lines (ds.flatMap fun d => (d.render map).toList ++ ['\n']) =
        blocks.flatten ++ [[]] ∧
      List.Forall₂ (fun d block => ∃ file, map.resolve d.location.file = .ok file ∧
        block = d.printedLines file) ds blocks) ∧
    (ds.flatMap fun d => (d.render map).toList ++ ['\n']).count '\n' =
      ds.length + (ds.map (·.message.toList.count '\n')).sum := by
  refine ⟨⟨ds.map fun d => lines (d.render map).toList, ?_, ?_⟩, ?_⟩
  · have htexts := lines_flatMap_feed (ds.map fun d => (d.render map).toList)
    rwa [List.flatMap_map, List.flatMap_map, List.flatMap_def (f := fun d => lines _)] at htexts
  · refine List.forall₂_map_right_iff.mpr (List.forall₂_same.mpr fun d hd => ?_)
    obtain ⟨file, hfile, hheading⟩ := h d hd
    exact ⟨file, hfile, d.lines_render hfile hheading⟩
  · induction ds with
    | nil => rfl
    | cons d ds ih =>
      obtain ⟨file, hfile, hheading⟩ := h d List.mem_cons_self
      rw [List.flatMap_cons, List.count_append, ih fun d hd => h d (List.mem_cons_of_mem _ hd),
        List.count_append, d.count_feed_render hfile hheading, List.map_cons, List.sum_cons,
        List.length_cons, List.count_singleton_self]
      omega

/-- Where no message has a line feed in it, each diagnostic is printed on one line. -/
theorem lines_flatMap_render_of_not_mem {map : SourceMap} {ds : List Diagnostic}
    (h : ∀ d ∈ ds, ∃ file, map.resolve d.location.file = .ok file ∧
      '\n' ∉ (d.heading file).toList)
    (hmessages : ∀ d ∈ ds, '\n' ∉ d.message.toList) :
    ∃ printed, lines (ds.flatMap fun d => (d.render map).toList ++ ['\n']) = printed ++ [[]] ∧
      List.Forall₂ (fun d line => ∃ file, map.resolve d.location.file = .ok file ∧
        line = (d.heading file ++ d.message).toList) ds printed := by
  obtain ⟨⟨blocks, hlines, hblocks⟩, -⟩ := lines_flatMap_render h
  rw [hlines]
  clear hlines h
  induction hblocks with
  | nil => exact ⟨[], rfl, .nil⟩
  | @cons d block ds blocks hblock _ ih =>
    obtain ⟨file, hfile, rfl⟩ := hblock
    obtain ⟨hmessage, hmessages⟩ := List.forall_mem_cons.mp hmessages
    obtain ⟨printed, hprinted, hall⟩ := ih hmessages
    refine ⟨(d.heading file ++ d.message).toList :: printed, ?_, .cons ⟨file, hfile, rfl⟩ hall⟩
    rw [List.flatten_cons, List.append_assoc, hprinted, d.printedLines_of_not_mem file hmessage]
    rfl

theorem toList_render_text (o : Outcome) :
    (o.render .text).toList =
      o.result.diagnostics.flatMap fun d => (d.render o.compilation.sources).toList ++ ['\n'] := by
  rw [render, String.toList_join, List.flatMap_map]
  simp only [String.toList_append]
  rfl

/-- The lines of an output are those of the messages, in order, the first line of each behind the
heading of its diagnostic. There are as many as there are diagnostics, and one more for each line
feed in a message. So they are as many as the diagnostics, and are these one by one, exactly if the
rules keep all strings on one line. -/
theorem lines_render_text (registry : Registry) (id : Nat) (sources : List (String × String))
    (hpaths : ∀ source ∈ sources, '\n' ∉ source.1.toList)
    (hrules : ∀ rule ∈ registry.rules, '\n' ∉ rule.descriptor.id.toList ∧
      '\n' ∉ rule.descriptor.messageFormat.toList) :
    let c := Compilation.ofSources id sources
    ∃ result, Analysis.run registry c = .ok result ∧
      let output := (render ⟨c, result⟩ .text).toList
      (∃ blocks, lines output = blocks.flatten ++ [[]] ∧
        List.Forall₂ (fun d block => ∃ file, c.sources.resolve d.location.file = .ok file ∧
          block = d.printedLines file) result.diagnostics blocks) ∧
      output.count '\n' =
        result.diagnostics.length + (result.diagnostics.map (·.message.toList.count '\n')).sum ∧
      (output.count '\n' = result.diagnostics.length ↔ KeepsLines registry sources) ∧
      (KeepsLines registry sources → ∃ printed, lines output = printed ++ [[]] ∧
        List.Forall₂ (fun d line => ∃ file, c.sources.resolve d.location.file = .ok file ∧
          line = (d.heading file ++ d.message).toList) result.diagnostics printed) := by
  intro c
  have hholds : Compilation.Holds id (sources.map fun source => .parsed source.1 source.2) c := by
    rw [show c = Compilation.build id _ from Compilation.ofSources_eq_build id sources]
    exact Compilation.holds_build id _
  have henabled : ∀ rule ∈ registry.enabledRules, '\n' ∉ rule.descriptor.id.toList ∧
      '\n' ∉ rule.descriptor.messageFormat.toList := fun rule hrule =>
    hrules rule (List.mem_of_mem_filter hrule)
  have hkeeps := feed_not_mem_iff id sources fun rule hrule => (henabled rule hrule).2
  generalize hds : registry.enabledRules.flatMap
    (Expected.ofRule id (sources.map fun source => .parsed source.1 source.2)) = ds at hkeeps
  have hrun : Analysis.run registry c = .ok (Analysis.result ds) := by
    rw [Analysis.run, Analysis.analyze_of_holds hholds, hds]
    rfl
  have hplaced : ∀ d ∈ ds, ∃ file, c.sources.resolve d.location.file = .ok file ∧
      '\n' ∉ (d.heading file).toList := by
    rw [← hds]
    intro d hd
    obtain ⟨rule, hrule, hd⟩ := List.mem_flatMap.mp hd
    exact exists_file_of_mem_ofRule hpaths (henabled rule hrule).1 hd
  obtain ⟨hblocks, hcount⟩ := lines_flatMap_render hplaced
  have hzero : (ds.map (·.message.toList.count '\n')).sum = 0 ↔ KeepsLines registry sources := by
    rw [← hkeeps, List.sum_eq_zero_iff_forall_eq_nat]
    simp [List.count_eq_zero]
  refine ⟨Analysis.result ds, hrun, ?_⟩
  dsimp only
  rw [toList_render_text]
  refine ⟨hblocks, hcount, ?_, fun hkept => ?_⟩
  · rw [← hzero]
    show (ds.flatMap fun d => (d.render c.sources).toList ++ ['\n']).count '\n' = ds.length ↔ _
    omega
  · exact lines_flatMap_render_of_not_mem hplaced (hkeeps.mpr hkept)

/-- A string that is reported, and another one with an escaped line feed in it, which is not. -/
def keptSources : List (String × String) :=
  [("a.cs", "[Error(\"a?\")] class A \x7b \x7d"), ("b.cs", "[Error(\"b\\nc\")] class B \x7b \x7d")]

theorem lines_render_text_kept :
    (∀ source ∈ keptSources, '\n' ∉ source.1.toList) ∧
      (∀ rule ∈ Registry.builtin.rules, '\n' ∉ rule.descriptor.id.toList ∧
        '\n' ∉ rule.descriptor.messageFormat.toList) ∧
      KeepsLines .builtin keptSources ∧
      ∃ result, Analysis.run .builtin (.ofSources 0 keptSources) = .ok result ∧
        ∃ printed, lines (render ⟨.ofSources 0 keptSources, result⟩ .text).toList =
          printed ++ [[]] ∧ printed.length = result.diagnostics.length := by
  have hpaths : ∀ source ∈ keptSources, '\n' ∉ source.1.toList := by decide
  have hrules : ∀ rule ∈ Registry.builtin.rules, '\n' ∉ rule.descriptor.id.toList ∧
      '\n' ∉ rule.descriptor.messageFormat.toList := by decide +kernel
  obtain ⟨result, hrun, -, -, hcount, hprinted⟩ :=
    lines_render_text .builtin 0 keptSources hpaths hrules
  have hevaluated : (Analysis.run .builtin (.ofSources 0 keptSources)).toOption.map (fun result =>
      ((render ⟨.ofSources 0 keptSources, result⟩ .text).toList.count '\n',
        result.diagnostics.length)) = some (1, 1) := by decide +kernel
  rw [hrun, Except.toOption, Option.map_some, Option.some.injEq, Prod.mk.injEq] at hevaluated
  have hkept : KeepsLines .builtin keptSources :=
    hcount.mp (hevaluated.1.trans hevaluated.2.symm)
  obtain ⟨printed, hlines, hall⟩ := hprinted hkept
  exact ⟨hpaths, hrules, hkept, result, hrun, printed, hlines, hall.length_eq.symm⟩

/-- A string with an escaped line feed and what looks like a diagnostic behind it. -/
def forgingSources : List (String × String) :=
  [("a.cs", "[Error(\"?\\nb.cs:1:1: error[X]: c\")] class C \x7b \x7d")]

/-- One diagnostic is printed on two lines, and the second one reads like another diagnostic. -/
theorem lines_render_text_forged :
    (∀ source ∈ forgingSources, '\n' ∉ source.1.toList) ∧
      (∀ rule ∈ Registry.builtin.rules, '\n' ∉ rule.descriptor.id.toList ∧
        '\n' ∉ rule.descriptor.messageFormat.toList) ∧
      (Analysis.run .builtin (.ofSources 0 forgingSources)).toOption.map (fun result =>
        (result.diagnostics.length,
          lines (render ⟨.ofSources 0 forgingSources, result⟩ .text).toList)) =
        some (1, ["a.cs:1:1: warning[ESG0001]: Illegal character '?' in message \"?".toList,
          "b.cs:1:1: error[X]: c\"".toList, []]) := by
  decide +kernel

end Outcome

end AttributeLint
