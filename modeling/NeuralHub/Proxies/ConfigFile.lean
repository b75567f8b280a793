/-
NeuralHub.Proxies.ConfigFile — what a failed save does to the file of the
configuration.

Source: `proxy_config.py`, `ProxyConfigGenerator.save`.

Opening the file for writing empties it, and everything that can fail
after that fails with an empty file, a part of the text, or a text that
does not pass validation. Only the last of these is undone, and only from
a backup. `save_keeps_file_iff` says exactly when a save that raises a
`ConfigError` leaves the file as it was.

What YAML makes of a value and of a text is a parameter. Where a call of
the operating system fails is an input (`SaveFaults`), with the text of
the exception and what is in the file then.
-/
import NeuralHub.Proxies.ChainManager

namespace NeuralHub.Proxies

open NeuralHub.Lib
open NeuralHub.Plan (truthy)

abbrev Bytes := List UInt8

/-- `_dump_yaml` with the encoding of its text, and `yaml.safe_load` with the decoding. -/
structure Yaml where
  dump : Json → Except String Bytes
  load : Bytes → Except String Json

/-! ## Validation -/

def isFullList (value : Option Json) : Bool :=
  match value with
  | some (.arr items) => items ≠ .nil
  | _ => false

def checkDns (dns : Json) : Except String Unit :=
  match dns with
  | .obj dns =>
    if dns.get? "enhanced-mode" = some (.str "fake-ip") then
      if !isFullList (dns.get? "proxy-server-nameserver") then
        .error "fake-ip mode requires proxy-server-nameserver"
      else if !isFullList (dns.get? "default-nameserver") then
        .error "fake-ip mode requires default-nameserver"
      else .ok ()
    else .ok ()
  | _ => .ok ()

namespace Texts

variable (py : Texts)

def checkConfig (data : Json) : Except String Unit :=
  match data with
  | .obj data => do
    if !isFullList (data.get? "proxies") then throw "Config file proxies list is empty."
    checkDns ((data.get? "dns").getD (.obj .nil))
    let controller := match data.get? "external-controller" with
      | some value => if truthy value then stripped (py.text value) else ""
      | none => ""
    if controller = "" then throw "Config file is missing external-controller"
  | _ => .error "Config file is not a valid YAML object."

end Texts

/-! ## Saving -/

structure SaveFaults where
  /-- Making the directory, or looking for the file. -/
  prepare : Option String := none
  /-- Copying the backup; what it leaves of the backup file. -/
  backup : Option (Option Bytes) := none
  openFile : Option String := none
  /-- Writing, after so many bytes. -/
  write : Option (Nat × String) := none
  reread : Option String := none
  /-- Copying the backup back; what it leaves of the file. -/
  restore : Option Bytes := none

structure ConfigFiles where
  config : Option Bytes
  backup : Option Bytes
  deriving DecidableEq, Repr

inductive SaveResult
  | saved
  | configError (message : String)
  | osError
  deriving DecidableEq, Repr

section

variable (py : Texts) (yaml : Yaml) (keepsBackup : Bool) (files : ConfigFiles)
  (faults : SaveFaults) (config : Json)

def verifySavedConfig (contents : Bytes) : Except String Unit :=
  match faults.reread with
  | some message => .error ("Failed to validate config file: " ++ message)
  | none =>
    match yaml.load contents with
    | .error message => .error ("Failed to validate config file: " ++ message)
    | .ok data => py.checkConfig data

/-- There is a backup to go back to. -/
def backupMade : Bool := keepsBackup && files.config.isSome && faults.backup.isNone

def makeBackup : ConfigFiles :=
  if keepsBackup ∧ files.config.isSome then
    { files with backup := faults.backup.getD files.config }
  else files

def writeError (message : String) : SaveResult :=
  .configError ("Failed to write config: " ++ message)

def save : ConfigFiles × SaveResult :=
  match faults.prepare with
  | some message => (files, writeError message)
  | none =>
    let copied := makeBackup keepsBackup files faults
    match faults.openFile with
    | some message => (copied, writeError message)
    | none =>
      match yaml.dump config with
      | .error message => ({ copied with config := some [] }, writeError message)
      | .ok text =>
        match faults.write with
        | some (written, message) =>
          ({ copied with config := some (text.take written) }, writeError message)
        | none =>
          match verifySavedConfig py yaml faults text with
          | .ok () => ({ copied with config := some text }, .saved)
          | .error message =>
            if backupMade keepsBackup files faults then
              match faults.restore with
              | some contents => ({ copied with config := some contents }, .osError)
              | none => ({ copied with config := copied.backup }, .configError message)
            else ({ copied with config := some text }, .configError message)

/-! ## When the file is kept -/

/-- The point at which a save fails, and what is in the file then. -/
inductive FailurePoint
  | beforeOpening
  | writing (contents : Bytes)
  | validating (contents : Bytes)
  deriving DecidableEq, Repr

def failurePoint : Option FailurePoint :=
  if faults.prepare.isSome ∨ faults.openFile.isSome then some .beforeOpening
  else
    match yaml.dump config, faults.write with
    | .error _, _ => some (.writing [])
    | .ok text, some (written, _) => some (.writing (text.take written))
    | .ok text, none =>
      match verifySavedConfig py yaml faults text with
      | .ok () => none
      | .error _ => some (.validating text)

/-- The file is as it was, unless the save raised something else or nothing. -/
def KeepsFile (outcome : ConfigFiles × SaveResult) : Prop :=
  ∀ message, outcome.2 = .configError message → outcome.1.config = files.config

/-- The condition on the point of failure. -/
def Recoverable : FailurePoint → Prop
  | .beforeOpening => True
  | .writing contents => files.config = some contents
  | .validating contents =>
      backupMade keepsBackup files faults = true ∨ files.config = some contents

instance : ∀ point, Decidable (Recoverable keepsBackup files faults point)
  | .beforeOpening => inferInstanceAs (Decidable True)
  | .writing contents => inferInstanceAs (Decidable (files.config = some contents))
  | .validating contents => inferInstanceAs
      (Decidable (backupMade keepsBackup files faults = true ∨ files.config = some contents))

end

variable {py : Texts} {yaml : Yaml} {keepsBackup : Bool} {files : ConfigFiles}
  {faults : SaveFaults} {config : Json}

theorem config_makeBackup : (makeBackup keepsBackup files faults).config = files.config := by
  unfold makeBackup
  split <;> rfl

/-- A backup that was made is a copy of the file. -/
theorem backup_makeBackup (h : backupMade keepsBackup files faults = true) :
    (makeBackup keepsBackup files faults).backup = files.config := by
  unfold backupMade at h
  rw [Bool.and_eq_true, Bool.and_eq_true, Option.isNone_iff_eq_none] at h
  rw [makeBackup, if_pos h.1, h.2]
  rfl

theorem keepsFile_of_raised {outcome : ConfigFiles × SaveResult} {message : String}
    (h : outcome.2 = .configError message) :
    KeepsFile files outcome ↔ outcome.1.config = files.config :=
  ⟨fun hkeeps => hkeeps message h, fun hsame _ _ => hsame⟩

theorem keepsFile_of_not_raised {outcome : ConfigFiles × SaveResult}
    (h : ∀ message, outcome.2 ≠ .configError message) : KeepsFile files outcome :=
  fun message hraised => absurd hraised (h message)

theorem forall_mem_some {α : Type} {P : α → Prop} {a : α} : (∀ x ∈ some a, P x) ↔ P a :=
  ⟨fun h => h a rfl, fun h _ hx => Option.some.inj hx ▸ h⟩

/-- What happens where validation fails. -/
theorem save_of_invalid {text : Bytes} {message : String} (hprepare : faults.prepare = none)
    (hopen : faults.openFile = none) (hdump : yaml.dump config = .ok text)
    (hwrite : faults.write = none) (hverify : verifySavedConfig py yaml faults text = .error message) :
    KeepsFile files (save py yaml keepsBackup files faults config) ↔
      backupMade keepsBackup files faults = true ∨ files.config = some text := by
  unfold save
  simp only [hprepare, hopen, hdump, hwrite, hverify]
  by_cases hbackup : backupMade keepsBackup files faults = true
  · rw [if_pos hbackup]
    refine iff_of_true ?_ (Or.inl hbackup)
    split
    · exact keepsFile_of_not_raised fun _ h => nomatch h
    · exact (keepsFile_of_raised rfl).mpr (backup_makeBackup hbackup)
  · rw [if_neg hbackup, keepsFile_of_raised rfl, or_iff_right hbackup]
    exact eq_comm

/-- **When a failed save keeps the file**: exactly when it fails before it opens the file,
when validation fails and there is a backup, or when it leaves what was there. -/
theorem save_keeps_file_iff (py : Texts) (yaml : Yaml) (keepsBackup : Bool) (files : ConfigFiles)
    (faults : SaveFaults) (config : Json) :
    KeepsFile files (save py yaml keepsBackup files faults config) ↔
      ∀ point ∈ failurePoint py yaml faults config,
        Recoverable keepsBackup files faults point := by
  cases hprepare : faults.prepare with
  | some message =>
    have hpoint : failurePoint py yaml faults config = some .beforeOpening :=
      if_pos (Or.inl (by rw [hprepare]; rfl))
    rw [hpoint, forall_mem_some]
    unfold save
    simp only [hprepare]
    exact iff_of_true ((keepsFile_of_raised rfl).mpr rfl) trivial
  | none =>
    cases hopen : faults.openFile with
    | some message =>
      have hpoint : failurePoint py yaml faults config = some .beforeOpening :=
        if_pos (Or.inr (by rw [hopen]; rfl))
      rw [hpoint, forall_mem_some]
      unfold save
      simp only [hprepare, hopen]
      exact iff_of_true ((keepsFile_of_raised rfl).mpr config_makeBackup) trivial
    | none =>
      have hopened : ¬(faults.prepare.isSome = true ∨ faults.openFile.isSome = true) := by
        rw [hprepare, hopen]
        simp
      unfold failurePoint
      rw [if_neg hopened]
      cases hdump : yaml.dump config with
      | error message =>
        rw [forall_mem_some]
        unfold save
        simp only [hprepare, hopen, hdump]
        exact (keepsFile_of_raised rfl).trans eq_comm
      | ok text =>
        cases hwrite : faults.write with
        | some fault =>
          simp only
          rw [forall_mem_some]
          unfold save
          simp only [hprepare, hopen, hdump, hwrite]
          exact (keepsFile_of_raised rfl).trans eq_comm
        | none =>
          simp only
          cases hverify : verifySavedConfig py yaml faults text with
          | error message =>
            rw [forall_mem_some]
            exact save_of_invalid hprepare hopen hdump hwrite hverify
          | ok done =>
            refine iff_of_true ?_ fun _ hpoint => nomatch hpoint
            unfold save
            simp only [hprepare, hopen, hdump, hwrite, hverify]
            exact keepsFile_of_not_raised fun _ h => nomatch h

/-! ## A disk that is full -/

def utf8 (s : String) : Bytes := s.toUTF8.toList

/-- `proxies: []` in both directions. -/
def emptyProxies : Json := .obj (.cons "proxies" (.arr .nil) .nil)

def oneDocument : Yaml := ⟨fun _ => .ok (utf8 "proxies: []\n"), fun _ => .ok emptyProxies⟩

def plainStr : Texts := ⟨fun value => String.ofList value.text, id⟩

/-- The backup is there, and the file is empty. -/
theorem not_keeps_file_when_disk_full :
    ¬ ∀ (py : Texts) (yaml : Yaml) (keepsBackup : Bool) (files : ConfigFiles)
      (faults : SaveFaults) (config : Json),
      KeepsFile files (save py yaml keepsBackup files faults config) := by
  intro hclaim
  have hkeeps := hclaim plainStr oneDocument true ⟨some (utf8 "mode: rule\n"), none⟩
    { write := some (0, "No space left on device") } emptyProxies _ rfl
  revert hkeeps
  decide +kernel

end NeuralHub.Proxies
