/-
Saves in which calls fail.

Any set of the calls of `writeAtomic` may fail.  What a later `load` reports depends
on three of them: whether the new file was activated, and if it was not, whether the
current file had been moved away and could be moved back.

* `run_activate`, `run_replaceCurrent`, `run_writeAtomic` — what each part returns and
  leaves under the name;
* `load_runSave_iff` — the failed saves after which a load reports what it did before.
-/
import MyFlowHub.Keystore

open Calls

namespace Keystore

open Function

/-! ### What a call spares -/

/-- The call does not change what is stored under the name. -/
def FsOp.Spares (name : String) : FsOp → Prop
  | .create n => n ≠ name
  | .write n _ => n ≠ name
  | .remove n => n ≠ name
  | .rename source target => source ≠ name ∧ target ≠ name
  | _ => True

theorem content_update_of_ne {name other : String} (fs : FS) (file : Option File)
    (h : other ≠ name) : content (update fs other file) name = content fs name := by
  rw [content, update_of_ne h.symm]
  rfl

theorem content_exec {op : FsOp} {name : String} {fs fs' : FS} (h : op.Spares name)
    (hexec : op.exec fs = .ok fs') : content fs' name = content fs name := by
  cases op with
  | create n =>
    simp only [FsOp.exec] at hexec
    split at hexec <;> cases hexec
    exact content_update_of_ne fs _ h
  | chmod n mode =>
    simp only [FsOp.exec] at hexec
    split at hexec
    · cases hexec
    · next file hfile =>
      cases hexec
      -- the mode of the file may change, not its data
      by_cases hn : n = name
      · subst hn
        simp [content, hfile]
      · exact content_update_of_ne fs _ hn
  | write n data =>
    simp only [FsOp.exec] at hexec
    split at hexec <;> cases hexec
    exact content_update_of_ne fs _ h
  | sync n =>
    cases hexec
    rfl
  | close n =>
    cases hexec
    rfl
  | lstat n =>
    simp only [FsOp.exec] at hexec
    split at hexec <;> cases hexec
    rfl
  | remove n =>
    simp only [FsOp.exec] at hexec
    split at hexec <;> cases hexec
    exact content_update_of_ne fs _ h
  | rename source target =>
    simp only [FsOp.exec] at hexec
    split at hexec <;> cases hexec
    rw [content_update_of_ne _ _ h.2, content_update_of_ne _ _ h.1]

theorem content_perform {faults : Faults} {step : Step} {name : String} (fs : FS)
    (h : step.op.Spares name) :
    content (perform execStep faults.fails step fs).2 name = content fs name := by
  unfold perform
  split
  · rfl
  · split
    · rfl
    · next hexec => exact content_exec h hexec

section Runs

variable {faults : Faults} {fs : FS}

theorem run_attempt_fault {call : Call} {text : String} (h : faults call = some text) (op : FsOp)
    (label : String) (rest : Procedure) :
    run execStep faults.fails (attempt call op label rest) fs =
      (some (label ++ ": " ++ text), fs) :=
  run_call (perform_fault op h)

theorem run_attempt_ok {call : Call} {op : FsOp} {label : String} {rest : Procedure} {fs' : FS}
    (h : perform execStep faults.fails ⟨call, op⟩ fs = (none, fs')) :
    run execStep faults.fails (attempt call op label rest) fs = run execStep
      faults.fails rest fs' :=
  run_call h

/-- The deferred calls keep the result, and what is stored under other names. -/
theorem run_discard {temp name : String} (hne : temp ≠ name) (result : Option String) :
    (run execStep faults.fails (discard temp result) fs).1 = result ∧
      content (run execStep faults.fails (discard temp result) fs).2 name = content fs name := by
  refine ⟨rfl, ?_⟩
  show content (perform execStep faults.fails ⟨.discardRemove, .remove temp⟩
    (perform execStep faults.fails ⟨.discardClose, .close temp⟩ fs).2).2 name = _
  rw [content_perform, content_perform]
  · trivial
  · exact hne

end Runs

/-! ### The parts of a replacement -/

section Parts

variable (p : Paths) {faults : Faults} {fs : FS}

theorem run_activate_ok {file : File} (hfault : faults .activate = none)
    (htemp : fs p.temp = some file) (hadCurrent : Bool) :
    let r := run execStep faults.fails (activate p.path p.temp hadCurrent) fs
    (r.1 = none ↔ faults .protect = none) ∧ content r.2 p.path = some file.data := by
  intro r
  have hrun : r = run execStep faults.fails
      (attempt .protect (.chmod p.path 0o600) "protect state file" (.done none))
      (update (update fs p.temp none) p.path (some file)) :=
    run_call (perform_rename file p.path hfault htemp)
  cases hprotect : faults .protect with
  | none =>
    rw [run_attempt_ok (perform_chmod file 0o600 hprotect (by simp))] at hrun
    rw [hrun]
    simp [run, content]
  | some text =>
    rw [run_attempt_fault hprotect] at hrun
    rw [hrun]
    simp [content]

theorem run_activate_fault {text : String} (hfault : faults .activate = some text)
    (hpath : fs p.path = none) (hadCurrent : Bool) :
    let r := run execStep faults.fails (activate p.path p.temp hadCurrent) fs
    r.1 ≠ none ∧ content r.2 p.path =
      if hadCurrent = true ∧ faults .restore = none then content fs p.backup else none := by
  -- when it cannot get the name, the name is free unless the backup is moved back
  intro r
  have hnone : content fs p.path = none := by
    rw [content, hpath]
    rfl
  cases hadCurrent with
  | false =>
    have hrun : r = (some ("activate new state: " ++ text), fs) :=
      run_call (perform_fault _ hfault)
    rw [hrun]
    simp [hnone]
  | true =>
    have hrun : r = (some ("activate new state: " ++ text),
        (perform execStep faults.fails ⟨.restore, .rename p.backup p.path⟩ fs).2) :=
      run_call (perform_fault _ hfault)
    cases hrestore : faults .restore with
    | some text' =>
      rw [perform_fault _ hrestore] at hrun
      rw [hrun]
      simp [hnone]
    | none =>
      cases hbackup : fs p.backup with
      | none =>
        have hrename : perform execStep faults.fails ⟨.restore, .rename p.backup p.path⟩ fs =
            (some .notExist, fs) := by
          refine perform_of_error ?_ ?_
          · simp [Faults.fails, hrestore]
          · simp [execStep, FsOp.exec, hbackup]
        rw [hrename] at hrun
        rw [hrun]
        simp [hpath, content, hbackup]
      | some file =>
        rw [perform_rename file p.path hrestore hbackup] at hrun
        rw [hrun]
        simp [content, hbackup]

/-- What a replacement returns and leaves under the name, given whether it ended before
the temporary file could be activated. -/
structure Leaves (faults : Faults) (early : Prop) (before : Option Bytes) (data : Bytes)
    (err : Option String) (after : Option Bytes) : Prop where
  stopped : early → err ≠ none ∧ after = before
  inactive : ¬early → faults .activate ≠ none → err ≠ none ∧
    after = if before ≠ none ∧ faults .restore ≠ none then none else before
  active : ¬early → faults .activate = none →
    (err = none ↔ faults .protect = none) ∧ after = some data

/-- The calls before the activation of the temporary file that fail. -/
def Blocked (faults : Faults) (before : Option Bytes) : Prop :=
  faults .inspect ≠ none ∨ before ≠ none ∧ (faults .removeBackup ≠ none ∨ faults .backup ≠ none)

theorem Leaves.of_blocked {early : Prop} {before : Option Bytes} {data : Bytes} {text : String}
    {after : Option Bytes} (hearly : early) (h : after = before) :
    Leaves faults early before data (some text) after :=
  ⟨fun _ => ⟨by simp, h⟩, fun hn => absurd hearly hn, fun hn => absurd hearly hn⟩

theorem run_replaceCurrent_absent {file : File} (htemp : fs p.temp = some file)
    (hpath : fs p.path = none) (hinspect : faults .inspect = none) :
    let r := run execStep faults.fails (replaceCurrent p.path p.temp) fs
    Leaves faults (Blocked faults none) none file.data r.1 (content r.2 p.path) := by
  intro r
  have hrun : r = run execStep faults.fails (activate p.path p.temp false) fs :=
    run_call (perform_lstat_absent hinspect hpath)
  have hfree : ¬Blocked faults none := by simp [Blocked, hinspect]
  rw [hrun]
  refine ⟨fun h => absurd h hfree, fun _ hactivate => ?_, fun _ hactivate => ?_⟩
  · obtain ⟨text, htext⟩ := Option.ne_none_iff_exists'.mp hactivate
    have h := run_activate_fault p htext hpath false
    simpa using h
  · exact run_activate_ok p hactivate htemp false

theorem run_replaceCurrent_existing {file current : File} (htemp : fs p.temp = some file)
    (hpath : fs p.path = some current) (hinspect : faults .inspect = none) :
    let r := run execStep faults.fails (replaceCurrent p.path p.temp) fs
    Leaves faults (Blocked faults (some current.data)) (some current.data) file.data r.1
      (content r.2 p.path) := by
  intro r
  have hpt := p.path_ne_temp
  have hbt := p.backup_ne_temp
  have hbp := p.backup_ne_path
  have hsome : content fs p.path = some current.data := by simp [content, hpath]
  cases hremove : faults .removeBackup with
  | some text =>
    have hrun : r = (some ("remove stale state backup: " ++ text), fs) :=
      (run_call (perform_lstat current hinspect hpath)).trans (run_call (perform_fault _ hremove))
    rw [hrun]
    exact .of_blocked (.inr (by simp [hremove])) hsome
  | none =>
    let cleared := update fs p.backup none
    -- a backup that is absent is no error
    have hrun : r = run execStep faults.fails
        (attempt .backup (.rename p.path p.backup) "backup current state"
          (activate p.path p.temp true)) cleared := by
      refine (run_call (perform_lstat current hinspect hpath)).trans
        ((run_call (perform_remove p.backup hremove)).trans ?_)
      by_cases hb : fs p.backup = none
      · rw [if_pos hb]
        rfl
      · rw [if_neg hb]
        rfl
    cases hbackup : faults .backup with
    | some text =>
      rw [run_attempt_fault hbackup] at hrun
      rw [hrun]
      exact .of_blocked (.inr (by simp [hbackup]))
        ((content_update_of_ne fs none hbp).trans hsome)
    | none =>
      let moved := update (update cleared p.path none) p.backup (some current)
      have hcurrent : cleared p.path = some current := by simp [cleared, hbp.symm, hpath]
      rw [run_attempt_ok (perform_rename current p.backup hbackup hcurrent)] at hrun
      have hfree : ¬Blocked faults (some current.data) := by
        simp [Blocked, hinspect, hremove, hbackup]
      have hgone : moved p.path = none := by simp [moved, hbp.symm]
      have hkept : content moved p.backup = some current.data := by simp [moved, content]
      rw [hrun]
      refine ⟨fun h => absurd h hfree, fun _ hactivate => ?_, fun _ hactivate => ?_⟩
      · obtain ⟨text, htext⟩ := Option.ne_none_iff_exists'.mp hactivate
        have h := run_activate_fault p htext hgone true
        refine ⟨h.1, h.2.trans ?_⟩
        cases hrestore : faults .restore <;> simp [hkept]
      · refine run_activate_ok p hactivate ?_ true
        simp [cleared, hpt.symm, hbt.symm, htemp]

theorem run_replaceCurrent (faults : Faults) {file : File} (htemp : fs p.temp = some file) :
    let r := run execStep faults.fails (replaceCurrent p.path p.temp) fs
    Leaves faults (Blocked faults (content fs p.path)) (content fs p.path) file.data r.1
      (content r.2 p.path) := by
  intro r
  cases hinspect : faults .inspect with
  | some text =>
    have hrun : r = (some ("inspect current state: " ++ text), fs) :=
      run_call (perform_fault _ hinspect)
    rw [hrun]
    exact .of_blocked (.inl (by simp [hinspect])) rfl
  | none =>
    cases hpath : fs p.path with
    | none =>
      rw [show content fs p.path = none by simp [content, hpath]]
      exact run_replaceCurrent_absent p htemp hpath hinspect
    | some current =>
      rw [show content fs p.path = some current.data by simp [content, hpath]]
      exact run_replaceCurrent_existing p htemp hpath hinspect

theorem leaves_attempt {call : Call} {op : FsOp} {rest : Procedure} {fs' : FS} {name : String}
    {early : Prop} {before : Option Bytes} {data : Bytes} (label : String)
    (hok : faults call = none → perform execStep faults.fails ⟨call, op⟩ fs = (none, fs'))
    (hbefore : content fs name = before)
    (hrest : Leaves faults early before data (run execStep faults.fails rest fs').1
      (content (run execStep faults.fails rest fs').2 name)) :
    Leaves faults (faults call ≠ none ∨ early) before data
      (run execStep faults.fails (attempt call op label rest) fs).1
      (content (run execStep faults.fails (attempt call op label rest) fs).2 name) := by
  cases hcall : faults call with
  | some text =>
    rw [run_attempt_fault hcall]
    exact .of_blocked (.inl (by simp)) hbefore
  | none =>
    rw [run_attempt_ok (hok hcall)]
    simpa using hrest

def Early (faults : Faults) (before : Option Bytes) : Prop :=
  faults .create ≠ none ∨ faults .protectTemp ≠ none ∨ faults .write ≠ none ∨
    faults .sync ≠ none ∨ faults .close ≠ none ∨ Blocked faults before

theorem run_fillTemp (faults : Faults) (data : Bytes) (htemp : fs p.temp = some ⟨[], 0o600⟩) :
    let r := run execStep faults.fails (fillTemp p.path p.temp data) fs
    Leaves faults
      (faults .protectTemp ≠ none ∨ faults .write ≠ none ∨ faults .sync ≠ none ∨
        faults .close ≠ none ∨ Blocked faults (content fs p.path))
      (content fs p.path) data r.1 (content r.2 p.path) := by
  have hne := p.path_ne_temp.symm
  let guarded := update fs p.temp (some ⟨[], 0o600⟩)
  let filled := update guarded p.temp (some ⟨data, 0o600⟩)
  have hguarded : content guarded p.path = content fs p.path := content_update_of_ne fs _ hne
  have hfilled : content filled p.path = content fs p.path :=
    (content_update_of_ne guarded _ hne).trans hguarded
  have hfile : filled p.temp = some ⟨data, 0o600⟩ := by simp [filled]
  have hcurrent := run_replaceCurrent p faults hfile
  rw [hfilled] at hcurrent
  refine leaves_attempt _ (fun h => perform_chmod _ 0o600 h htemp) rfl ?_
  refine leaves_attempt _ (fun h => perform_write ⟨[], 0o600⟩ data h ?_) hguarded ?_
  · simp
  refine leaves_attempt _ (fun h => perform_sync p.temp h) hfilled ?_
  exact leaves_attempt _ (fun h => perform_close p.temp h) hfilled hcurrent

theorem run_writeAtomic (faults : Faults) (data : Bytes) (hfresh : fs p.temp = none) :
    let r := run execStep faults.fails (writeAtomic p.path p.temp data) fs
    Leaves faults (Early faults (content fs p.path)) (content fs p.path) data r.1
      (content r.2 p.path) := by
  have hne := p.path_ne_temp.symm
  let created := update fs p.temp (some ⟨[], 0o600⟩)
  have hcreated : content created p.path = content fs p.path := content_update_of_ne fs _ hne
  have hempty : created p.temp = some ⟨[], 0o600⟩ := by simp [created]
  have hfill := run_fillTemp p faults data hempty
  rw [hcreated] at hfill
  refine leaves_attempt _ (fun h => perform_create h hfresh) rfl ?_
  rw [run_bind, (run_discard hne _).1, (run_discard hne _).2]
  exact hfill

end Parts

/-! ### Failed saves -/

section Save

variable {R : Type} (codec : Codec R)

theorem load_ne_none {name : String} {fs : FS} (hname : fileName name = true)
    (h : content fs name ≠ none) : load codec name fs ≠ .ok none := by
  intro hload
  rw [load, if_pos hname] at hload
  cases hfile : fs name with
  | none => exact h (by simp [content, hfile])
  | some file =>
    rw [hfile] at hload
    cases hdecode : codec.decode file.data <;> simp [hdecode] at hload

/-- A save under these faults either succeeds or changes nothing a load can see: it ends
before the new file is activated, or the activation fails and the current file, if there
was one, is moved back, or the new file is activated and then protected (unless it says
what the current one said). -/
def Contained (faults : Faults) (name : String) (value : R) (fs : FS) : Prop :=
  fileName name = false ∨ (∃ text, codec.encode value = .error text) ∨
  Early faults (content fs name) ∨
  (faults .activate ≠ none ∧ (content fs name ≠ none → faults .restore = none)) ∨
  (faults .activate = none ∧ (faults .protect ≠ none → load codec name fs = .ok (some value)))

variable (faults : Faults) {suffix : String}

theorem runSave_eq {name : String} {value : R} {data : Bytes} (fs : FS)
    (hname : fileName name = true) (hencode : codec.encode value = .ok data) :
    let p : Paths := ⟨name, suffix, hname⟩
    runSave codec faults name suffix value fs =
      run execStep faults.fails (writeAtomic p.path p.temp (data ++ [10])) fs := by
  simp only [runSave, save, hname, if_true, hencode]
  rfl

/-- **A failed save.**  For every choice of failing calls, a save that returns an error
leaves what a load reported exactly when the faults are contained. -/
theorem load_runSave_iff (name : String) (value : R) {fs : FS}
    (hfresh : fs (".mfh-state-" ++ suffix) = none) :
    ((runSave codec faults name suffix value fs).1 ≠ none →
      load codec name (runSave codec faults name suffix value fs).2 = load codec name fs) ↔
    Contained codec faults name value fs := by
  by_cases hname : fileName name = true
  swap
  · have hrun : (runSave codec faults name suffix value fs).2 = fs := by
      simp only [runSave, save, hname]
      rfl
    rw [hrun]
    exact iff_of_true (fun _ => rfl) (.inl (by simpa using hname))
  cases hencode : codec.encode value with
  | error text =>
    have hrun : (runSave codec faults name suffix value fs).2 = fs := by
      simp only [runSave, save, hname, if_true, hencode]
      rfl
    rw [hrun]
    exact iff_of_true (fun _ => rfl) (.inr (.inl ⟨text, hencode⟩))
  | ok data =>
    let p : Paths := ⟨name, suffix, hname⟩
    have hleaves := run_writeAtomic p faults (data ++ [10]) hfresh
    rw [← runSave_eq codec faults fs hname hencode] at hleaves
    generalize runSave codec faults name suffix value fs = r at hleaves ⊢
    have hshort : Contained codec faults name value fs ↔ Early faults (content fs name) ∨
        (faults .activate ≠ none ∧ (content fs name ≠ none → faults .restore = none)) ∨
        (faults .activate = none ∧
          (faults .protect ≠ none → load codec name fs = .ok (some value))) := by
      simp [Contained, hname, hencode]
    rw [hshort]
    by_cases hearly : Early faults (content fs name)
    · exact iff_of_true (fun _ => load_congr codec (hleaves.stopped hearly).2) (.inl hearly)
    · by_cases hactivate : faults .activate = none
      · -- the new file is there
        obtain ⟨hnone, hcontent⟩ := hleaves.active hearly hactivate
        have hload : load codec name r.2 = .ok (some value) :=
          load_of_content_some codec hname hcontent (codec.decode_encode value data hencode)
        rw [hload, Ne, hnone]
        simp only [hearly, hactivate, ne_eq, not_true_eq_false, false_and, false_or, true_and]
        exact ⟨fun h hf => (h hf).symm, fun h hf => (h hf).symm⟩
      · obtain ⟨herr, hcontent⟩ := hleaves.inactive hearly hactivate
        simp only [hearly, hactivate, false_or, false_and, or_false, ne_eq, not_false_eq_true,
          true_and]
        by_cases hlost : content fs name ≠ none ∧ faults .restore ≠ none
        · -- the current file is gone, and a load tells
          replace hcontent := hcontent.trans (if_pos hlost)
          rw [load_of_content_none codec hname hcontent]
          refine iff_of_false (fun h => ?_) fun h => hlost.2 (h hlost.1)
          exact load_ne_none codec hname hlost.1 (h herr).symm
        · replace hcontent := hcontent.trans (if_neg hlost)
          refine iff_of_true (fun _ => load_congr codec hcontent) fun hsome => ?_
          by_contra hrestore
          exact hlost ⟨hsome, hrestore⟩

theorem load_runSave_cases (name : String) (value : R) {fs : FS}
    (hfresh : fs (".mfh-state-" ++ suffix) = none) :
    let after := load codec name (runSave codec faults name suffix value fs).2
    after = load codec name fs ∨ after = .ok none ∨ after = .ok (some value) := by
  by_cases hname : fileName name = true
  swap
  · refine .inl ?_
    simp only [runSave, save, hname]
    rfl
  cases hencode : codec.encode value with
  | error text =>
    refine .inl ?_
    simp only [runSave, save, hname, if_true, hencode]
    rfl
  | ok data =>
    let p : Paths := ⟨name, suffix, hname⟩
    have hleaves := run_writeAtomic p faults (data ++ [10]) hfresh
    rw [← runSave_eq codec faults fs hname hencode] at hleaves
    by_cases hearly : Early faults (content fs name)
    · exact .inl (load_congr codec (hleaves.stopped hearly).2)
    · by_cases hactivate : faults .activate = none
      · exact .inr (.inr (load_of_content_some codec hname (hleaves.active hearly hactivate).2
          (codec.decode_encode value data hencode)))
      · have hcontent := (hleaves.inactive hearly hactivate).2
        by_cases hlost : content fs name ≠ none ∧ faults .restore ≠ none
        · exact .inr (.inl (load_of_content_none codec hname (hcontent.trans (if_pos hlost))))
        · exact .inl (load_congr codec (hcontent.trans (if_neg hlost)))

end Save

end Keystore
