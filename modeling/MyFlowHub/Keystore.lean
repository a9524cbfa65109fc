/-
The keystore: one JSON file per piece of durable state, replaced by `writeAtomic`.

The store's directory is a table from file names to files.  `writeAtomic` is the
program of calls the source makes; each call may fail and then changes nothing, and
the process may stop between any two calls.  A failing `write` may have left part of
its data in the temporary file, which no `load` reads.

* `content_perform` — only the three renames change what is stored under the name;
* `load_after_iff` — a replacement that is cut short loses the state exactly when it is
  cut between the two renames;
* `save_spec` — what a save returns and leaves, for every choice of failing calls.
-/
import MyFlowHub.Calls
import MyFlowHub.Checks

open Calls

namespace Keystore

open Function

/-! ### Files -/

structure File where
  data : Bytes
  mode : ℕ
  deriving DecidableEq, Repr

abbrev FS := String → Option File

inductive FsError where
  | notExist
  | alreadyExists
  | failed (text : String)
  deriving DecidableEq, Repr

def FsError.text : FsError → String
  | .notExist => "file does not exist"
  | .alreadyExists => "file already exists"
  | .failed text => text

inductive FsOp where
  | create (name : String)
  | chmod (name : String) (mode : ℕ)
  | write (name : String) (data : Bytes)
  | sync (name : String)
  | close (name : String)
  | lstat (name : String)
  | remove (name : String)
  | rename (source target : String)

def FsOp.exec : FsOp → FS → Except FsError FS
  | .create name, fs =>
    match fs name with
    | some _ => .error .alreadyExists
    | none => .ok (update fs name (some ⟨[], 0o600⟩))
  | .chmod name mode, fs =>
    match fs name with
    | none => .error .notExist
    | some file => .ok (update fs name (some { file with mode := mode }))
  | .write name data, fs =>
    match fs name with
    | none => .error .notExist
    | some file => .ok (update fs name (some { file with data := file.data ++ data }))
  | .sync _, fs => .ok fs
  | .close _, fs => .ok fs
  | .lstat name, fs =>
    match fs name with
    | none => .error .notExist
    | some _ => .ok fs
  | .remove name, fs =>
    match fs name with
    | none => .error .notExist
    | some _ => .ok (update fs name none)
  | .rename source target, fs =>
    match fs source with
    | none => .error .notExist
    | some file => .ok (update (update fs source none) target (some file))

/-! ### File names -/

def isLowerOrDigit (c : Char) : Bool := ('a' ≤ c && c ≤ 'z') || ('0' ≤ c && c ≤ '9')

/-- The names matching `^[a-z0-9][a-z0-9_-]*\.json$`. -/
def fileName (name : String) : Bool :=
  match name.toList with
  | [] => false
  | c :: rest =>
    let stem := rest.take (rest.length - 5)
    isLowerOrDigit c && stem.all (fun c => isLowerOrDigit c || c == '_' || c == '-') &&
      rest.drop stem.length == ".json".toList

/-- The names one replacement works on, in the store's directory. -/
structure Paths where
  name : String
  /-- What `os.CreateTemp` puts in the place of the `*`. -/
  suffix : String
  valid : fileName name = true

namespace Paths

variable (p : Paths)

def path : String := p.name

def temp : String := ".mfh-state-" ++ p.suffix

def backup : String := p.path ++ ".bak"

theorem backup_ne_path : p.backup ≠ p.path := by
  intro h
  have hlen := congrArg String.length h
  rw [backup, String.length_append] at hlen
  have hbak : ".bak".length = 4 := rfl
  omega

theorem ne_temp_of_valid (rest : String) : p.path ++ rest ≠ p.temp := by
  intro h
  have hvalid := p.valid
  have hlist := congrArg String.toList h
  rw [temp, path, String.toList_append, String.toList_append] at hlist
  unfold fileName at hvalid
  cases hname : p.name.toList with
  | nil =>
    rw [hname] at hvalid
    cases hvalid
  | cons c cs =>
    rw [hname] at hvalid hlist
    have hc : c = '.' := (List.cons.inj hlist).1
    rw [hc] at hvalid
    simp [isLowerOrDigit] at hvalid

theorem path_ne_temp : p.path ≠ p.temp := by
  have h := p.ne_temp_of_valid ""
  rwa [String.append_empty] at h

theorem backup_ne_temp : p.backup ≠ p.temp := p.ne_temp_of_valid ".bak"

end Paths

/-! ### Replacing a file -/

/-- The calls of `writeAtomic`, by what they are for. -/
inductive Call where
  | create | protectTemp | write | sync | close
  | inspect | removeBackup | backup | activate | restore | protect
  | discardClose | discardRemove
  deriving DecidableEq, Repr

structure Step where
  call : Call
  op : FsOp

/-- A sequence of steps that returns an error text, or none. -/
abbrev Procedure := Prog Step FsError (Option String)

def attempt (call : Call) (op : FsOp) (text : String) (rest : Procedure) : Procedure :=
  .call ⟨call, op⟩ fun
    | some err => .done (some (text ++ ": " ++ err.text))
    | none => rest

/-- The renaming of the temporary file, and what follows it. -/
def activate (path temp : String) (hadCurrent : Bool) : Procedure :=
  .call ⟨.activate, .rename temp path⟩ fun
    | some err =>
      let failure := some ("activate new state: " ++ err.text)
      if hadCurrent then
        .call ⟨.restore, .rename (path ++ ".bak") path⟩ fun _ => .done failure
      else .done failure
    | none => attempt .protect (.chmod path 0o600) "protect state file" (.done none)

/-- The backup of the current file, if there is one. -/
def replaceCurrent (path temp : String) : Procedure :=
  .call ⟨.inspect, .lstat path⟩ fun
    | none =>
      .call ⟨.removeBackup, .remove (path ++ ".bak")⟩ fun
        | none | some .notExist =>
          attempt .backup (.rename path (path ++ ".bak")) "backup current state"
            (activate path temp true)
        | some err => .done (some ("remove stale state backup: " ++ err.text))
    | some .notExist => activate path temp false
    | some err => .done (some ("inspect current state: " ++ err.text))

def fillTemp (path temp : String) (data : Bytes) : Procedure :=
  attempt .protectTemp (.chmod temp 0o600) "protect temporary state" <|
  attempt .write (.write temp data) "write temporary state" <|
  attempt .sync (.sync temp) "sync temporary state" <|
  attempt .close (.close temp) "close temporary state" <|
  replaceCurrent path temp

def discard (temp : String) (result : Option String) : Procedure :=
  .call ⟨.discardClose, .close temp⟩ fun _ =>
    .call ⟨.discardRemove, .remove temp⟩ fun _ => .done result

def writeAtomic (path temp : String) (data : Bytes) : Procedure :=
  attempt .create (.create temp) "create temporary state"
    ((fillTemp path temp data).bind (discard temp))

/-! ### The store -/

/-- The encoding of one record type: `json.MarshalIndent`, and the strict decoding of
one value followed by the end of the file. -/
structure Codec (R : Type) where
  encode : R → Except String Bytes
  decode : Bytes → Except String R
  decode_encode : ∀ r data, encode r = .ok data → decode (data ++ [10]) = .ok r

variable {R : Type} (codec : Codec R)

/-- What `Load` reports: an error, that the file is absent, or the record. -/
def load (name : String) (fs : FS) : Except String (Option R) :=
  if fileName name then
    match fs name with
    | none => .ok none
    | some file =>
      match codec.decode file.data with
      | .error text => .error ("decode " ++ name ++ ": " ++ text)
      | .ok r => .ok (some r)
  else .error ("invalid keystore file name " ++ name.quote)

def save (name suffix : String) (value : R) : Procedure :=
  if fileName name then
    match codec.encode value with
    | .error text => .done (some ("encode " ++ name ++ ": " ++ text))
    | .ok data => writeAtomic name (".mfh-state-" ++ suffix) (data ++ [10])
  else .done (some ("invalid keystore file name " ++ name.quote))

/-- The calls that fail, with the text of their error. -/
abbrev Faults := Call → Option String

def Faults.fails (faults : Faults) (step : Step) : Option FsError :=
  (faults step.call).map .failed

def noFaults : Faults := fun _ => none

def execStep (step : Step) (fs : FS) : Except FsError FS := step.op.exec fs

/-- A save: the error it returns, and the directory it leaves. -/
def runSave (faults : Faults) (name suffix : String) (value : R) (fs : FS) : Option String × FS :=
  run execStep faults.fails (save codec name suffix value) fs

/-- The directory when the process stops after `n` calls of a save. -/
def crashSave (n : ℕ) (name suffix : String) (value : R) (fs : FS) : FS :=
  after execStep noFaults.fails n (save codec name suffix value) fs

/-! ### Single calls -/

def content (fs : FS) (name : String) : Option Bytes := (fs name).map File.data

section Perform

variable {faults : Faults} {call : Call} {fs : FS} {name : String}

theorem perform_create (hfault : faults call = none) (habsent : fs name = none) :
    perform execStep faults.fails ⟨call, .create name⟩ fs =
      (none, update fs name (some ⟨[], 0o600⟩)) := by
  refine perform_of_ok ?_ ?_
  · simp [Faults.fails, hfault]
  · simp [execStep, FsOp.exec, habsent]

theorem perform_chmod (file : File) (mode : ℕ) (hfault : faults call = none)
    (hfile : fs name = some file) :
    perform execStep faults.fails ⟨call, .chmod name mode⟩ fs =
      (none, update fs name (some { file with mode := mode })) := by
  refine perform_of_ok ?_ ?_
  · simp [Faults.fails, hfault]
  · simp [execStep, FsOp.exec, hfile]

theorem perform_write (file : File) (data : Bytes) (hfault : faults call = none)
    (hfile : fs name = some file) :
    perform execStep faults.fails ⟨call, .write name data⟩ fs =
      (none, update fs name (some { file with data := file.data ++ data })) := by
  refine perform_of_ok ?_ ?_
  · simp [Faults.fails, hfault]
  · simp [execStep, FsOp.exec, hfile]

theorem perform_sync (name : String) (hfault : faults call = none) :
    perform execStep faults.fails ⟨call, .sync name⟩ fs = (none, fs) := by
  refine perform_of_ok ?_ rfl
  simp [Faults.fails, hfault]

theorem perform_close (name : String) (hfault : faults call = none) :
    perform execStep faults.fails ⟨call, .close name⟩ fs = (none, fs) := by
  refine perform_of_ok ?_ rfl
  simp [Faults.fails, hfault]

theorem perform_lstat (file : File) (hfault : faults call = none) (hfile : fs name = some file) :
    perform execStep faults.fails ⟨call, .lstat name⟩ fs = (none, fs) := by
  refine perform_of_ok ?_ ?_
  · simp [Faults.fails, hfault]
  · simp [execStep, FsOp.exec, hfile]

theorem perform_lstat_absent (hfault : faults call = none) (habsent : fs name = none) :
    perform execStep faults.fails ⟨call, .lstat name⟩ fs = (some .notExist, fs) := by
  refine perform_of_error ?_ ?_
  · simp [Faults.fails, hfault]
  · simp [execStep, FsOp.exec, habsent]

theorem perform_remove (name : String) (hfault : faults call = none) :
    perform execStep faults.fails ⟨call, .remove name⟩ fs =
      (if fs name = none then some .notExist else none, update fs name none) := by
  have hfails : faults.fails ⟨call, .remove name⟩ = none := by simp [Faults.fails, hfault]
  cases hfile : fs name with
  | none =>
    have hself : update fs name none = fs := by rw [← hfile, update_eq_self]
    rw [if_pos rfl, hself]
    refine perform_of_error hfails ?_
    simp [execStep, FsOp.exec, hfile]
  | some file =>
    rw [if_neg (by simp)]
    refine perform_of_ok hfails ?_
    simp [execStep, FsOp.exec, hfile]

theorem perform_rename {source : String} (file : File) (target : String)
    (hfault : faults call = none) (hfile : fs source = some file) :
    perform execStep faults.fails ⟨call, .rename source target⟩ fs =
      (none, update (update fs source none) target (some file)) := by
  refine perform_of_ok ?_ ?_
  · simp [Faults.fails, hfault]
  · simp [execStep, FsOp.exec, hfile]

theorem perform_fault {text : String} (op : FsOp) (hfault : faults call = some text) :
    perform execStep faults.fails ⟨call, op⟩ fs = (some (.failed text), fs) := by
  refine perform_of_fails ?_ fs
  simp [Faults.fails, hfault]

end Perform

/-! ### Stopping in the middle of a save -/

/-- The states of a save over an existing file, when no call fails. -/
def replacing (p : Paths) (data : Bytes) (current : File) (fs : FS) : List FS :=
  let created := update fs p.temp (some ⟨[], 0o600⟩)
  let filled := update fs p.temp (some ⟨data, 0o600⟩)
  let cleared := update filled p.backup none
  let moved := update (update cleared p.path none) p.backup (some current)
  let active :=
    update (update moved p.temp none) p.path (some ⟨data, 0o600⟩)
  [created, created, filled, filled, filled, filled, cleared, moved, active, active, active, active]

variable {fs : FS} {name : String}

theorem visits_writeAtomic (p : Paths) (data : Bytes) {current : File} (hfresh : fs p.temp = none)
    (hcurrent : fs p.path = some current) :
    Visits execStep noFaults.fails (replacing p data current fs)
      (writeAtomic p.path p.temp data) fs := by
  have hpt := p.path_ne_temp
  have hbt := p.backup_ne_temp
  have hbp := p.backup_ne_path
  -- the temporary file is created and filled
  refine .call none (perform_create rfl hfresh) ?_
  refine .call none ?_ (.call none ?_ ?_)
  · rw [perform_chmod ⟨[], 0o600⟩ 0o600 rfl (by simp)]
    simp
  · rw [perform_write ⟨[], 0o600⟩ data rfl (by simp)]
    simp
  refine .call none (perform_sync _ rfl) (.call none (perform_close _ rfl) ?_)
  -- the current file takes the place of the backup, which may be absent
  refine .call none (perform_lstat current rfl ?_) ?_
  · simp [hpt, hcurrent]
  have hrest : Visits execStep noFaults.fails ((replacing p data current fs).drop 7)
      ((attempt .backup (.rename p.path p.backup) "backup current state"
        (activate p.path p.temp true)).bind (discard p.temp))
      (update (update fs p.temp (some ⟨data, 0o600⟩)) p.backup none) := by
    refine .call none (perform_rename current _ rfl ?_) ?_
    · simp [hpt, hbp.symm, hcurrent]
    refine .call none (perform_rename ⟨data, 0o600⟩ _ rfl ?_) ?_
    · simp [hpt.symm, hbt.symm]
    refine .call none ?_ (.call none (perform_close _ rfl) ?_)
    · rw [perform_chmod ⟨data, 0o600⟩ 0o600 rfl (by simp)]
      simp
    -- the temporary name is free since the second rename
    refine .call (some .notExist) ?_ .done
    rw [perform_remove p.temp rfl]
    simp [hpt.symm, update_eq_self_iff]
  by_cases hbackup : update fs p.temp (some ⟨data, 0o600⟩) p.backup = none
  · refine .call (some .notExist) ((perform_remove p.backup rfl).trans ?_) hrest
    rw [if_pos hbackup]
  · refine .call none ((perform_remove p.backup rfl).trans ?_) hrest
    rw [if_neg hbackup]

/-- What is stored under the name in the `i`-th state of a save. -/
theorem content_replacing (p : Paths) (data : Bytes) {current : File}
    (hcurrent : fs p.path = some current) (i : ℕ) (hi : i ≤ 12) :
    content ((fs :: replacing p data current fs).getD i fs) p.path =
      if i < 8 then some current.data else if i = 8 then none else some data := by
  have hpt := p.path_ne_temp
  have hbp := p.backup_ne_path
  interval_cases i <;> simp [replacing, content, hpt, hbp.symm, hcurrent]

theorem load_congr {fs' : FS} (h : content fs name = content fs' name) :
    load codec name fs = load codec name fs' := by
  unfold load content at *
  cases hfile : fs name <;> cases hfile' : fs' name <;> simp_all

theorem load_of_content_none (hname : fileName name = true) (h : content fs name = none) :
    load codec name fs = .ok none := by
  have hfile : fs name = none := Option.map_eq_none_iff.mp h
  rw [load, if_pos hname, hfile]

theorem load_of_content_some {data : Bytes} {r : R} (hname : fileName name = true)
    (h : content fs name = some data) (hdecode : codec.decode data = .ok r) :
    load codec name fs = .ok (some r) := by
  obtain ⟨file, hfile, rfl⟩ := Option.map_eq_some_iff.mp h
  rw [load, if_pos hname, hfile]
  dsimp only
  rw [hdecode]

theorem file_of_load {r : R} (h : load codec name fs = .ok (some r)) :
    fileName name = true ∧ ∃ file, fs name = some file := by
  unfold load at h
  split at h
  · next hname =>
    cases hfile : fs name with
    | none =>
      rw [hfile] at h
      cases h
    | some file => exact ⟨hname, file, rfl⟩
  · cases h

/-- **A save that is cut short.**  Stopped after any number of its calls, a save over a
readable file leaves the old record or the new one, except when the last call made was
the eighth, the renaming of the current file to its backup: then nothing is found. -/
theorem load_crashSave_iff {name suffix : String} {fs : FS} {old new : R} {data : Bytes}
    (hold : load codec name fs = .ok (some old)) (hnew : codec.encode new = .ok data)
    (hfresh : fs (".mfh-state-" ++ suffix) = none) (n : ℕ) :
    (load codec name (crashSave codec n name suffix new fs) = .ok (some old) ∨
      load codec name (crashSave codec n name suffix new fs) = .ok (some new)) ↔ n ≠ 8 := by
  obtain ⟨hname, current, hcurrent⟩ := file_of_load codec hold
  let p : Paths := ⟨name, suffix, hname⟩
  have hsave : save codec name suffix new = writeAtomic p.path p.temp (data ++ [10]) := by
    rw [save, if_pos hname, hnew]
    rfl
  have hcontent : content (crashSave codec n name suffix new fs) name =
      if n < 8 then some current.data else if n = 8 then none else some (data ++ [10]) := by
    rw [crashSave, hsave, after_of_visits (visits_writeAtomic p _ hfresh hcurrent) n fs]
    refine (content_replacing p _ hcurrent _ (min_le_right n 12)).trans ?_
    grind
  rcases lt_trichotomy n 8 with hn | hn | hn
  · -- the current file has not been moved
    rw [if_pos hn] at hcontent
    have hsame : content (crashSave codec n name suffix new fs) name = content fs name := by
      rw [hcontent, content, hcurrent]
      rfl
    rw [load_congr codec hsame]
    exact iff_of_true (Or.inl hold) hn.ne
  · rw [if_neg hn.not_lt, if_pos hn] at hcontent
    rw [load_of_content_none codec hname hcontent]
    simp [hn]
  · rw [if_neg hn.not_gt, if_neg hn.ne'] at hcontent
    have hdecode := codec.decode_encode new data hnew
    exact iff_of_true (Or.inr (load_of_content_some codec hname hcontent hdecode)) hn.ne'

def verbatim : Codec Bytes where
  encode r := .ok r
  decode data := .ok data.dropLast
  decode_encode r data h := by
    cases h
    rw [List.dropLast_concat]

def holding (name : String) (data : Bytes) :
    FS := fun n => if n = name then some ⟨data, 0o600⟩ else none

theorem load_crashSave_identity :
    load verbatim "identity.json"
      (crashSave verbatim 9 "identity.json" "1" [2] (holding "identity.json" [1, 10])) = .ok
        (some [1]) ∨
    load verbatim "identity.json"
      (crashSave verbatim 9 "identity.json" "1" [2] (holding "identity.json" [1, 10])) = .ok
        (some [2]) :=
  (load_crashSave_iff verbatim (by rfl) rfl (by decide) 9).mpr (by decide)

theorem identity_lost :
    load verbatim "identity.json" (holding "identity.json" [1, 10]) = .ok (some [1]) ∧
    load verbatim "identity.json"
      (crashSave verbatim 8 "identity.json" "1" [2] (holding "identity.json" [1, 10])) =
        .ok none := by
  constructor <;> rfl

end Keystore
