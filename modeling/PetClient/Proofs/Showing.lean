import PetClient.Config.Wire
import PetClient.Demo.Text
import PetClient.Proofs.Json.Layout
import PetClient.Proofs.Masking
import PetClient.Proofs.Merging
import PetClient.Proofs.Wire

/-!
The configuration that the demo shows: it can be read back, and a client that is set up from what is
read is the one that is set up from the configuration itself.
-/

namespace PetClient

namespace Config

theorem ofConfig_shown (config : Config) :
    Client.ofConfig config.shown = Client.ofConfig config := by
  rw [Client.ofConfig_eq, Client.ofConfig_eq, effectiveHeaders_shown]
  rfl

end Config

namespace Json

def dict {α : Type} (shape : Shape α) : Shape (Dict α) where
  read := readDict shape.read
  ofNull := .error (.wrongType .null "a map")
  write := writeDict shape.write

theorem dict_lawful {α : Type} {shape : Shape α} (lawful : shape.Lawful) :
    (dict shape).Lawful :=
  readDict_lawful lawful

end Json

namespace Demo

/-! ### The two forms of the configuration -/

theorem decode_headersJson (config : Config) :
    (Json.dict Json.text).decode (Utf8.bytesOf (headersJson config).compact) =
      .ok config.effectiveHeaders := by
  have written : headersJson config = (Json.dict Json.text).write config.effectiveHeaders := rfl
  rw [written]
  exact (Json.dict_lawful Json.text_lawful).decode_encode config.effectiveHeaders

theorem not_mem_headersJson (config : Config) : '\n' ∉ (headersJson config).compact.toList := by
  unfold Json.compact
  rw [String.toList_ofList]
  refine Json.not_mem_compactChars fun member mem => ?_
  obtain ⟨entry, -, rfl⟩ := List.mem_map.1 mem
  unfold Json.compactChars
  exact Json.not_mem_quoted _

theorem filled_configJson (config : Config) :
    Text.LinesFilled (configJson config).pretty.toList := by
  have text (depth : Nat) (s : String) :
      Text.LinesFilled ((Json.string s).prettyChars depth) := by
    unfold Json.prettyChars
    exact .of_not_mem (Json.not_mem_quoted _)
  have headers : Text.LinesFilled ((headersJson config).prettyChars 1) := by
    refine Json.filled_prettyChars fun member mem => ?_
    obtain ⟨entry, -, rfl⟩ := List.mem_map.1 mem
    exact text 2 entry.2
  unfold Json.pretty
  rw [String.toList_ofList]
  exact Json.filled_prettyChars (List.forall_mem_cons.2
    ⟨text 1 config.baseUrl, List.forall_mem_singleton.2 headers⟩)

theorem decode_configJson (config : Config) :
    Config.shape.decode (Utf8.bytesOf (configJson config).pretty) = .ok config.shown := by
  have built : Config.record.build config.shown.draftOf = .ok config.shown := rfl
  have baseUrl := (Json.text_laid 1 config.baseUrl).into fun v =>
    ({ baseUrl := v } : Config.Draft)
  have headers := (Json.readDict_laid (Json.text_laid 2) config.effectiveHeaders).into fun v =>
    ({ baseUrl := some config.baseUrl, headers := v } : Config.Draft)
  exact Json.Shape.decode_laid (Json.Record.reads_laid
    (.cons ⟨_, rfl, rfl, rfl⟩ baseUrl (.cons ⟨_, rfl, rfl, rfl⟩ headers (.nil _))) built)

/-! ### The whole text -/

def lineChars (lines : List String) : List Char :=
  lines.flatMap fun line => line.toList ++ ['\n']

theorem lineChars_cons (line : String) (lines : List String) :
    lineChars (line :: lines) = line.toList ++ '\n' :: lineChars lines := by
  unfold lineChars
  rw [List.flatMap_cons, List.append_assoc, List.singleton_append]

theorem lineChars_singleton (line : String) : lineChars [line] = line.toList ++ ['\n'] :=
  lineChars_cons line []

theorem lineChars_append (first second : List String) :
    lineChars (first ++ second) = lineChars first ++ lineChars second :=
  List.flatMap_append

def titleLines (style : Style) : List String :=
  ["Petstore API Client Example (" ++ style.name ++ ")", rule '=', ""]

def closingLines (style : Style) (generator : String) : List String :=
  [rule '-', ""] ++ "Available Operations:" :: operations.map (operationLine style) ++ divider ++
    ["Example Usage Patterns:", usage style] ++ instructionLines { style, generator }

theorem toList_render (config : Config) (style : Style) (json : Bool) (generator : String) :
    (render config { style, json, generator }).toList =
      lineChars (titleLines style) ++ (lineChars (configLines config json) ++
        '\n' :: lineChars (closingLines style generator)) := by
  have parts : lines config { style, json, generator } =
      titleLines style ++ (configLines config json ++ "" :: closingLines style generator) := by
    simp [lines, titleLines, closingLines, divider, instructionLines]
  unfold render pieces
  rw [String.toList_ofList, ← List.flatMap_def]
  change lineChars (lines config _) = _
  rw [parts, lineChars_append, lineChars_append, lineChars_cons]
  rfl

def configMark : List Char :=
  "Configuration: ".toList

theorem lineChars_block (config : Config) (behind : List Char) :
    lineChars (configLines config true) ++ '\n' :: behind =
      configMark ++ ((configJson config).pretty.toList ++ (['\n', '\n'] ++ behind)) := by
  have lines : configLines config true = ["Configuration: " ++ (configJson config).pretty] := rfl
  rw [lines, lineChars_singleton, String.toList_append]
  generalize (configJson config).pretty.toList = text
  rw [List.append_assoc, List.append_assoc]
  rfl

theorem lineChars_plain (config : Config) (behind : List Char) :
    lineChars (configLines config false) ++ '\n' :: behind =
      "Configuration:\n  base_url: ".toList ++ (config.baseUrl.toList ++
        ("\n  headers: ".toList ++ ((headersJson config).compact.toList ++
          (['\n', '\n'] ++ behind)))) := by
  have lines : configLines config false = ["Configuration:", "  base_url: " ++ config.baseUrl,
    "  headers: " ++ (headersJson config).compact] := rfl
  have title : "Configuration:\n  base_url: ".toList =
      "Configuration:".toList ++ '\n' :: "  base_url: ".toList := by cbv
  have headers : "\n  headers: ".toList = '\n' :: "  headers: ".toList := by cbv
  rw [lines, lineChars_cons, lineChars_cons, lineChars_singleton, String.toList_append,
    String.toList_append, title, headers]
  generalize (headersJson config).compact.toList = text
  generalize config.baseUrl.toList = address
  simp only [List.append_assoc, List.cons_append, List.nil_append]

theorem splitAtFirst?_title (style : Style) (rest : List Char) :
    Text.splitAtFirst? configMark (lineChars (titleLines style) ++ (configMark ++ rest)) =
      some (lineChars (titleLines style), rest) := by
  cases style <;> cbv

/-- The configuration that the demo prints is the one that a client uses, and can be loaded again.
As JSON it is the block between its title and the next blank line, which is read as the base address
and the merged fields; these are merged to themselves, so that a client made of them is the same, or
is refused in the same way.  Otherwise the same lines around it hold the base address as it is and,
on one line, the merged fields. -/
theorem shows_what_clients_use (config : Config) (style : Style) (generator : String) :
    ∃ front block line behind : List Char, ∃ shown : Config,
      Text.splitAtFirst? "Configuration: ".toList
          (render config { style, json := true, generator }).toList =
        some (front, block ++ ("\n\n".toList ++ behind)) ∧
      Text.splitAtFirst? "\n\n".toList (block ++ ("\n\n".toList ++ behind)) =
        some (block, behind) ∧
      Config.shape.decode (Utf8.encode block) = .ok shown ∧
      shown.baseUrl = config.baseUrl ∧ shown.headers = config.effectiveHeaders ∧
      shown.token = none ∧ shown.timeoutSecs = none ∧
      shown.effectiveHeaders = config.effectiveHeaders ∧
      Client.ofConfig shown = Client.ofConfig config ∧
      (render config { style, json := false, generator }).toList =
        front ++ "Configuration:\n  base_url: ".toList ++ config.baseUrl.toList ++
          "\n  headers: ".toList ++ line ++ "\n\n".toList ++ behind ∧
      '\n' ∉ line ∧
      (Json.dict Json.text).decode (Utf8.encode line) = .ok config.effectiveHeaders := by
  have blank : "\n\n".toList = ['\n', '\n'] := by cbv
  refine ⟨lineChars (titleLines style), (configJson config).pretty.toList,
    (headersJson config).compact.toList, lineChars (closingLines style generator), config.shown,
    ?_, ?_, decode_configJson config, rfl, rfl, rfl, rfl, config.effectiveHeaders_shown,
    config.ofConfig_shown, ?_, not_mem_headersJson config, decode_headersJson config⟩
  · rw [toList_render, lineChars_block, blank]
    exact splitAtFirst?_title style _
  · rw [blank]
    exact (filled_configJson config).splitAtFirst? _
  · rw [toList_render, lineChars_plain, blank]
    simp only [List.append_assoc]

end Demo

end PetClient
