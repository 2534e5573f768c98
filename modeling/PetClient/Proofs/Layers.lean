import PetClient.Demo.Resolve
import PetClient.Proofs.Discovery

/-!
The layers of a configuration.  At most one file is used, as a whole; the flags go before it, and the
defaults stand for it when there is none.
-/

namespace PetClient.Demo

open Config (YamlWording)
open Files (Path Tree)

variable {tree other : Tree} {a : Arguments} {cwd cwd' path : Path} {stop stop' : Option Path}
  {wording : YamlWording} {file : Option Config} {config : Config} {error : ClientError}
  {failure : Failure}

/-! ### The file -/

/-- The file that counts, if any: the one that is named, or else the one that is found unless it is
broken. -/
inductive FileUsed (tree : Tree) (a : Arguments) (cwd : Path) (stop : Option Path)
    (wording : YamlWording) : Option Config → Prop
  | named {path : Path} {config : Config} (named : a.config = some path)
      (loaded : Config.load tree path wording = .ok config) :
      FileUsed tree a cwd stop wording (some config)
  | found {path : Path} {config : Config} (unnamed : a.config = none)
      (found : Config.findFile tree cwd stop = some path)
      (loaded : Config.load tree path wording = .ok config) :
      FileUsed tree a cwd stop wording (some config)
  | broken {path : Path} {error : ClientError} (unnamed : a.config = none)
      (found : Config.findFile tree cwd stop = some path)
      (failed : Config.load tree path wording = .error error) :
      FileUsed tree a cwd stop wording none
  | absent (unnamed : a.config = none) (missing : Config.findFile tree cwd stop = none) :
      FileUsed tree a cwd stop wording none

theorem fileConfig_of_loaded (named : a.config = some path)
    (loaded : Config.load tree path wording = .ok config) :
    fileConfig tree a cwd stop wording = .ok (some config) := by
  unfold fileConfig
  rw [named]
  dsimp only
  rw [loaded]
  rfl

theorem fileConfig_of_failed (named : a.config = some path)
    (failed : Config.load tree path wording = .error error) :
    fileConfig tree a cwd stop wording =
      .error (.ofClient ("failed to load " ++ path.text) error) := by
  unfold fileConfig
  rw [named]
  dsimp only
  rw [failed]
  rfl

theorem fileConfig_of_found (unnamed : a.config = none)
    (found : Config.findFile tree cwd stop = some path) :
    fileConfig tree a cwd stop wording = .ok (Config.load tree path wording).toOption := by
  unfold fileConfig
  rw [unnamed]
  dsimp only
  rw [Config.discover_of_found found]
  cases Config.load tree path wording with
  | error error => rfl
  | ok config => rfl

theorem fileConfig_of_absent (unnamed : a.config = none)
    (missing : Config.findFile tree cwd stop = none) :
    fileConfig tree a cwd stop wording = .ok none := by
  unfold fileConfig
  rw [unnamed]
  dsimp only
  rw [Config.discover_eq_none.2 missing]

theorem fileConfig_of_used (used : FileUsed tree a cwd stop wording file) :
    fileConfig tree a cwd stop wording = .ok file := by
  cases used with
  | named named loaded => exact fileConfig_of_loaded named loaded
  | found unnamed found loaded =>
    rw [fileConfig_of_found unnamed found, loaded]
    rfl
  | broken unnamed found failed =>
    rw [fileConfig_of_found unnamed found, failed]
    rfl
  | absent unnamed missing => exact fileConfig_of_absent unnamed missing

/-- A file that is named and cannot be loaded is the only thing that fails. -/
theorem used_or_failed (tree : Tree) (a : Arguments) (cwd : Path) (stop : Option Path)
    (wording : YamlWording) : (∃ file, FileUsed tree a cwd stop wording file) ∨
      ∃ path error, a.config = some path ∧ Config.load tree path wording = .error error := by
  cases named : a.config with
  | some path =>
    cases loaded : Config.load tree path wording with
    | error error => exact .inr ⟨path, error, rfl, loaded⟩
    | ok config => exact .inl ⟨_, .named named loaded⟩
  | none =>
    cases found : Config.findFile tree cwd stop with
    | none => exact .inl ⟨_, .absent named found⟩
    | some path =>
      cases loaded : Config.load tree path wording with
      | error error => exact .inl ⟨_, .broken named found loaded⟩
      | ok config => exact .inl ⟨_, .found named found loaded⟩

theorem fileConfig_eq_ok :
    fileConfig tree a cwd stop wording = .ok file ↔ FileUsed tree a cwd stop wording file := by
  refine ⟨fun resolved => ?_, fileConfig_of_used⟩
  rcases used_or_failed tree a cwd stop wording with ⟨file', used⟩ | ⟨path, error, named, failed⟩
  · rw [fileConfig_of_used used] at resolved
    cases resolved
    exact used
  · rw [fileConfig_of_failed named failed] at resolved
    cases resolved

theorem fileConfig_eq_error : fileConfig tree a cwd stop wording = .error failure ↔
    ∃ path error, a.config = some path ∧ Config.load tree path wording = .error error ∧
      failure = .ofClient ("failed to load " ++ path.text) error := by
  constructor
  · intro refused
    rcases used_or_failed tree a cwd stop wording with ⟨file, used⟩ | ⟨path, error, named, failed⟩
    · rw [fileConfig_of_used used] at refused
      cases refused
    · rw [fileConfig_of_failed named failed] at refused
      cases refused
      exact ⟨path, error, named, failed, rfl⟩
  · rintro ⟨path, error, named, failed, rfl⟩
    exact fileConfig_of_failed named failed

/-! ### The layers -/

/-- A configuration that comes from flags, from a file as a whole, if there is one, and otherwise
from the defaults. -/
structure Layered (a : Arguments) (file : Option Config) (config : Config) : Prop where
  baseUrl : config.baseUrl = a.baseUrl.getD ((file.map Config.baseUrl).getD defaultBaseUrl)
  token : config.token = a.token.or (file.elim (some defaultToken) Config.token)
  headers : config.headers = (file.map Config.headers).getD ∅
  timeoutSecs : config.timeoutSecs = file.bind Config.timeoutSecs

theorem layered_override (a : Arguments) (file : Option Config) :
    Layered a file (a.override (file.getD defaultConfig)) := by
  cases file with
  | none => exact ⟨rfl, rfl, rfl, rfl⟩
  | some file => exact ⟨rfl, rfl, rfl, rfl⟩

theorem layered_iff : Layered a file config ↔ a.override (file.getD defaultConfig) = config := by
  constructor
  · intro layered
    have resolved := layered_override a file
    generalize a.override (file.getD defaultConfig) = config' at resolved ⊢
    cases config
    cases config'
    congr 1
    · exact resolved.baseUrl.trans layered.baseUrl.symm
    · exact resolved.headers.trans layered.headers.symm
    · exact resolved.token.trans layered.token.symm
    · exact resolved.timeoutSecs.trans layered.timeoutSecs.symm
  · rintro rfl
    exact layered_override a file

theorem resolve_eq_ok : resolve tree a cwd stop wording = .ok config ↔
    ∃ file, FileUsed tree a cwd stop wording file ∧ Layered a file config := by
  unfold resolve
  rw [Result.map_eq_ok]
  simp only [fileConfig_eq_ok, layered_iff]

theorem resolve_eq_error : resolve tree a cwd stop wording = .error failure ↔
    ∃ path error, a.config = some path ∧ Config.load tree path wording = .error error ∧
      failure = .ofClient ("failed to load " ++ path.text) error := by
  unfold resolve
  rw [Result.map_eq_error, fileConfig_eq_error]

theorem resolve_eq_of_fileConfig
    (same : fileConfig other a cwd' stop' wording = fileConfig tree a cwd stop wording) :
    resolve other a cwd' stop' wording = resolve tree a cwd stop wording := by
  unfold resolve
  rw [same]

/-! ### What is recorded -/

theorem fileLog_of_named (named : a.config = some path) :
    fileLog tree a cwd stop wording = Config.loadLog path (Config.load tree path wording) := by
  unfold fileLog
  rw [named]

theorem fileLog_of_found (unnamed : a.config = none)
    (found : Config.findFile tree cwd stop = some path) :
    fileLog tree a cwd stop wording =
      match Config.load tree path wording with
      | .ok config => Config.loadLog path (.ok config)
      | .error error => [⟨.warn, "ignoring configuration file: " ++ errorLine error⟩] := by
  unfold fileLog Config.discoverLog
  rw [unnamed, found]
  dsimp only
  rw [Config.discover_of_found found]
  cases Config.load tree path wording with
  | error error => rfl
  | ok config => rfl

theorem fileLog_of_absent (unnamed : a.config = none)
    (missing : Config.findFile tree cwd stop = none) : fileLog tree a cwd stop wording = [] := by
  unfold fileLog Config.discoverLog
  rw [unnamed, missing]
  dsimp only
  rw [Config.discover_eq_none.2 missing]

theorem resolve_eq_of_named (named : a.config = some path)
    (same : other.readText path = tree.readText path) :
    resolve other a cwd' stop' wording = resolve tree a cwd stop wording ∧
      resolveLog other a cwd' stop' wording = resolveLog tree a cwd stop wording := by
  have loads := Config.load_eq same wording
  have uses : fileConfig other a cwd' stop' wording = fileConfig tree a cwd stop wording := by
    unfold fileConfig
    rw [named]
    dsimp only
    rw [loads]
  have resolves := resolve_eq_of_fileConfig uses
  unfold resolveLog
  rw [resolves, fileLog_of_named named, fileLog_of_named named, loads]
  exact ⟨rfl, rfl⟩

theorem resolve_eq_of_found (unnamed : a.config = none)
    (found : Config.findFile tree cwd stop = some path)
    (found' : Config.findFile other cwd stop = some path)
    (same : other.readText path = tree.readText path) :
    resolve other a cwd stop wording = resolve tree a cwd stop wording ∧
      resolveLog other a cwd stop wording = resolveLog tree a cwd stop wording := by
  have loads := Config.load_eq same wording
  have uses : fileConfig other a cwd stop wording = fileConfig tree a cwd stop wording := by
    rw [fileConfig_of_found unnamed found, fileConfig_of_found unnamed found', loads]
  have resolves := resolve_eq_of_fileConfig uses
  unfold resolveLog
  rw [resolves, fileLog_of_found unnamed found, fileLog_of_found unnamed found', loads]
  exact ⟨rfl, rfl⟩

/-- A file that is found and cannot be loaded is as good as none, but for what is recorded. -/
theorem resolve_eq_of_broken (unnamed : a.config = none)
    (found : Config.findFile tree cwd stop = some path)
    (failed : Config.load tree path wording = .error error)
    (missing : Config.findFile other cwd stop = none) :
    resolve tree a cwd stop wording = resolve other a cwd stop wording ∧
      resolveLog tree a cwd stop wording =
        ⟨.warn, "ignoring configuration file: " ++ errorLine error⟩ ::
          resolveLog other a cwd stop wording := by
  have uses : fileConfig tree a cwd stop wording = fileConfig other a cwd stop wording := by
    rw [fileConfig_of_found unnamed found, failed, fileConfig_of_absent unnamed missing]
    rfl
  have resolves := resolve_eq_of_fileConfig uses
  unfold resolveLog
  rw [resolves, fileLog_of_found unnamed found, failed, fileLog_of_absent unnamed missing]
  exact ⟨rfl, rfl⟩

theorem authorization_of_empty_flag (layered : Layered a file config) (empty : a.token = some "") :
    config.authorization = none := by
  unfold Config.authorization
  rw [layered.token, empty]
  rfl

/-- What a configuration is made of.  A file that is named has to be loaded, and then it is the only
one that is used.  Without one, the file that is found is used; if it is broken, everything is as if
none were found, with a warning, and no other is tried.  The flags go before the file that is used,
which stands for the defaults as a whole: the default token is never beside it. -/
theorem flags_file_defaults (tree : Tree) (a : Arguments) (cwd : Path) (stop : Option Path)
    (wording : YamlWording) :
    (∀ config, resolve tree a cwd stop wording = .ok config ↔
      ∃ file, FileUsed tree a cwd stop wording file ∧ Layered a file config) ∧
    (∀ failure, resolve tree a cwd stop wording = .error failure ↔
      ∃ path error, a.config = some path ∧ Config.load tree path wording = .error error ∧
        failure = ⟨"failed to load " ++ path.text, error.message :: error.causes⟩) ∧
    (∀ path, a.config = some path → ∀ other cwd' stop',
      other.readText path = tree.readText path →
        resolve other a cwd' stop' wording = resolve tree a cwd stop wording ∧
          resolveLog other a cwd' stop' wording = resolveLog tree a cwd stop wording) ∧
    (∀ path, a.config = none → Config.findFile tree cwd stop = some path →
      (∀ other, Config.findFile other cwd stop = some path →
        other.readText path = tree.readText path →
          resolve other a cwd stop wording = resolve tree a cwd stop wording ∧
            resolveLog other a cwd stop wording = resolveLog tree a cwd stop wording) ∧
      ∀ error, Config.load tree path wording = .error error → ∀ bare,
        Config.findFile bare cwd stop = none →
          resolve tree a cwd stop wording = resolve bare a cwd stop wording ∧
            resolveLog tree a cwd stop wording =
              ⟨.warn, "ignoring configuration file: " ++ errorLine error⟩ ::
                resolveLog bare a cwd stop wording) ∧
    (∀ config, resolve tree a cwd stop wording = .ok config → a.token = some "" →
      config.authorization = none) := by
  refine ⟨fun _ => resolve_eq_ok, fun _ => resolve_eq_error, ?_, ?_, ?_⟩
  · intro path named other cwd' stop' same
    exact resolve_eq_of_named named same
  · intro path unnamed found
    constructor
    · intro other found' same
      exact resolve_eq_of_found unnamed found found' same
    · intro error failed bare missing
      exact resolve_eq_of_broken unnamed found failed missing
  · intro config resolved empty
    obtain ⟨file, -, layered⟩ := resolve_eq_ok.1 resolved
    exact authorization_of_empty_flag layered empty

/-- A broken file is not replaced by the next one beside it, and an empty token as a flag replaces
the default one. -/
theorem flags_file_defaults_broken :
    let tree : Tree := { entries := [([".petstorerc".toList], .file [255]),
      (["petstore.config.yaml".toList], .file (Utf8.bytesOf "base_url: http://pets.test"))] }
    let a : Arguments := { token := some "" }
    ∃ config warning, resolve tree a ⟨""⟩ none .mark = .ok config ∧
      config.baseUrl = defaultBaseUrl ∧ config.authorization = none ∧
      resolveLog tree a ⟨""⟩ none .mark =
        ⟨.warn, warning⟩ :: resolveLog {} a ⟨""⟩ none .mark := by
  intro tree a
  have found : Config.findFile tree ⟨""⟩ none = some ⟨".petstorerc"⟩ := by
    rfl
  have missing : Config.findFile {} ⟨""⟩ none = none := by
    rfl
  have read : tree.read ⟨".petstorerc"⟩ = .ok [255] := by
    rfl
  have undecoded : Utf8.decode? [255] = none := by
    cbv
  have unread : tree.readText ⟨".petstorerc"⟩ = .error .notText := by
    unfold Tree.readText
    rw [read]
    simp only [bind, Except.bind, undecoded]
    rfl
  have failed : Config.load tree ⟨".petstorerc"⟩ .mark =
      .error (.config ".petstorerc" (.file .notText)) := by
    unfold Config.load
    rw [unread]
    rfl
  obtain ⟨resolved, -, -, unnamed, empty⟩ := flags_file_defaults tree a ⟨""⟩ none .mark
  obtain ⟨-, recorded⟩ := (unnamed _ rfl found).2 _ failed {} missing
  have used := (resolved _).2 ⟨none, .broken rfl found failed, layered_override a none⟩
  exact ⟨_, _, used, rfl, empty _ used rfl, recorded⟩

end PetClient.Demo
