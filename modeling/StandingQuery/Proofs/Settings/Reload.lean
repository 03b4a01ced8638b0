import Mathlib
import StandingQuery.Proofs.Json.Members
import StandingQuery.Settings.Handle

/-!
# Reloads

A reload ends in one of six ways, and all but one leave the handle as it is. So a handle always holds
settings without diagnostics, and the hash of the text that they were read from, whatever its file has
held meanwhile: a text that is refused does not keep a later one from being taken over.

## Main definitions

* `SettingsHandle.Reloads` — what a reload can come to.
* `SettingsHandle.Synced` — the settings and the hash are those of one text.

## Main results

* `SettingsHandle.reloads` — a reload comes to one of these.
* `SettingsHandle.reload_eq_true_iff` — when a text is taken over.
* `SettingsHandle.reload_atomic` — reloads after any writes, deletions and reloads.
-/

namespace StandingQuery

/-! ## Settings of a text -/

theorem ClientSettings.startupChanges_eq_nil_iff {s t : ClientSettings} : s.startupChanges t = [] ↔
    s.sweepInterval = t.sweepInterval ∧ s.fullRefreshInterval = t.fullRefreshInterval := by
  rw [startupChanges, List.append_eq_nil_iff, ite_eq_left_iff, ite_eq_left_iff]
  simp

namespace Settings

variable {s : Settings} {text : String}

theorem checked_eq_ok_iff {s' : Settings} : s.checked = .ok s' ↔ s.diagnostics = [] ∧ s = s' := by
  rw [checked]
  cases s.diagnostics <;> simp

/-- Settings that a text gives have no diagnostics. -/
theorem diagnostics_of_ofText (h : ofText text = .ok s) : s.diagnostics = [] := by
  rw [ofText] at h
  split at h
  · simp at h
  · obtain ⟨hnone, rfl⟩ := checked_eq_ok_iff.1 h
    exact hnone

/-- A file gives what its text gives. -/
theorem ofFileText_fst (path text : String) : (ofFileText path text).1 = ofText text := by
  rw [ofFileText, ofText]
  cases parse? text <;> rfl

end Settings

/-- What is written to a file is read from it. -/
theorem Files.read?_write (files : Files) {path name : String} (hname : name? path = some name)
    (text : String) : (files.write path text.toUTF8).read? path = some text := by
  rw [read?, write, hname]
  dsimp only [Option.bind_some]
  rw [Json.Members.get?_set, if_pos rfl]
  exact dif_pos text.isValidUTF8

namespace SettingsHandle

variable {h h' : SettingsHandle} {files : Files} {path text : String} {log : List LogLine}

/-! ## One reload -/

theorem replace_eq_ok {s : Settings} (hfields : h.current.clients.startupChanges s.clients = []) :
    h.replace path text s = .ok { h with current := s, contentHash := hashOf text } := by
  rw [replace, hfields]

theorem replace_eq_error {s : Settings} (hfields : h.current.clients.startupChanges s.clients ≠ []) :
    h.replace path text s =
      .error (.restartRequired path (h.current.clients.startupChanges s.clients)) := by
  rw [replace]
  split
  · contradiction
  · rfl

/-- What a reload can come to: its answer and the handle after it. -/
inductive Reloads (h : SettingsHandle) (files : Files) :
    Except SettingsError Bool → SettingsHandle → Prop
  | sourceless (hsource : h.source = none) : Reloads h files (.ok false) h
  | unreadable {path : String} (hsource : h.source = some path) (hread : files.read? path = none) :
    Reloads h files (.error (.unreadable path)) h
  | unchanged {path text : String} (hsource : h.source = some path)
      (hread : files.read? path = some text) (hhash : hashOf text = h.contentHash) :
    Reloads h files (.ok false) h
  /-- The text is no settings, or there is something wrong with them. -/
  | rejected {path text : String} {e : SettingsError} (hsource : h.source = some path)
      (hread : files.read? path = some text) (hhash : hashOf text ≠ h.contentHash)
      (htext : Settings.ofText text = .error e) :
    Reloads h files (.error e) h
  | postponed {path text : String} {s : Settings} (hsource : h.source = some path)
      (hread : files.read? path = some text) (hhash : hashOf text ≠ h.contentHash)
      (htext : Settings.ofText text = .ok s) (hfields : h.current.clients.startupChanges s.clients ≠ []) :
    Reloads h files (.error (.restartRequired path (h.current.clients.startupChanges s.clients))) h
  | taken {path text : String} {s : Settings} (hsource : h.source = some path)
      (hread : files.read? path = some text) (hhash : hashOf text ≠ h.contentHash)
      (htext : Settings.ofText text = .ok s) (hfields : h.current.clients.startupChanges s.clients = []) :
    Reloads h files (.ok true) { h with current := s, contentHash := hashOf text }

theorem reloads (h : SettingsHandle) (files : Files) :
    Reloads h files (h.reload files).1 (h.reload files).2.1 := by
  rw [reload]
  cases hsource : h.source with
  | none => exact .sourceless hsource
  | some path =>
    dsimp only
    cases hread : files.read? path with
    | none => exact .unreadable hsource hread
    | some text =>
      dsimp only
      by_cases hhash : hashOf text = h.contentHash
      · rw [if_pos hhash]
        exact .unchanged hsource hread hhash
      · rw [if_neg hhash, Settings.ofFileText_fst]
        cases htext : Settings.ofText text with
        | error e => exact .rejected hsource hread hhash htext
        | ok s =>
          dsimp only [Except.bind]
          by_cases hfields : h.current.clients.startupChanges s.clients = []
          · rw [replace_eq_ok hfields]
            exact .taken hsource hread hhash htext hfields
          · rw [replace_eq_error hfields]
            exact .postponed hsource hread hhash htext hfields

/-- A text is taken over exactly if it can be read, is not the one that was taken over last, gives
settings without diagnostics, and differs in nothing that is read at the start only. -/
theorem reload_eq_true_iff (hsource : h.source = some path) : (h.reload files).1 = .ok true ↔
    ∃ text s, files.read? path = some text ∧ hashOf text ≠ h.contentHash ∧
      Settings.ofText text = .ok s ∧ h.current.clients.startupChanges s.clients = [] := by
  constructor
  · intro htrue
    have hreloads := h.reloads files
    rw [htrue] at hreloads
    generalize (h.reload files).2.1 = next at hreloads
    cases hreloads with
    | taken hpath hread hhash htext hfields =>
      obtain rfl := Option.some.inj (hsource.symm.trans hpath)
      exact ⟨_, _, hread, hhash, htext, hfields⟩
  · rintro ⟨text, s, hread, hhash, htext, hfields⟩
    rw [reload, hsource]
    dsimp only
    rw [hread]
    dsimp only
    rw [if_neg hhash, Settings.ofFileText_fst, htext, Except.bind, replace_eq_ok hfields]

/-- A text that was taken over is not taken over again. -/
theorem reload_of_hash_eq (hsource : h.source = some path) (hread : files.read? path = some text)
    (hhash : h.contentHash = hashOf text) : h.reload files = (.ok false, h, []) := by
  rw [reload, hsource]
  dsimp only
  rw [hread]
  exact if_pos hhash.symm

/-! ## Handles over a file -/

/-- The handle is over the file, and its settings and its hash are those of one text. -/
structure Synced (path : String) (h : SettingsHandle) : Prop where
  source : h.source = some path
  text : ∃ text, Settings.ofText text = .ok h.current ∧ h.contentHash = hashOf text

theorem synced_openFile (hopen : openFile files path = (.ok h, log)) : Synced path h := by
  rw [openFile] at hopen
  split at hopen
  · simp at hopen
  · rename_i text hread
    have hload : (Settings.ofFileText path text).1.map
        (fun s => { current := s, source := some path, contentHash := hashOf text }) = .ok h :=
      congrArg Prod.fst hopen
    rw [Settings.ofFileText_fst] at hload
    cases htext : Settings.ofText text with
    | error e => simp [htext, Except.map] at hload
    | ok s =>
      rw [htext] at hload
      obtain rfl := Except.ok.inj hload
      exact ⟨rfl, text, htext, rfl⟩

/-- A reload leaves a handle in step with its text, and what is read at the start only. -/
theorem Reloads.keeps {answer : Except SettingsError Bool} (hreloads : Reloads h files answer h')
    (hsynced : Synced path h) :
    Synced path h' ∧ h.current.clients.startupChanges h'.current.clients = [] := by
  have hsame : h.current.clients.startupChanges h.current.clients = [] :=
    ClientSettings.startupChanges_eq_nil_iff.2 ⟨rfl, rfl⟩
  cases hreloads with
  | sourceless | unreadable | unchanged | rejected | postponed => exact ⟨hsynced, hsame⟩
  | taken hsource hread hhash htext hfields => exact ⟨⟨hsynced.source, _, htext, rfl⟩, hfields⟩

/-- A reload that does not tell that something was taken over leaves the handle as it is. -/
theorem Reloads.unchanged_of_ne {answer : Except SettingsError Bool} (hreloads : Reloads h files answer h')
    (hne : answer ≠ .ok true) : h' = h := by
  cases hreloads with
  | sourceless | unreadable | unchanged | rejected | postponed => rfl
  | taken => exact absurd rfl hne

/-- What was taken over is what the file holds. -/
theorem Reloads.text_of_true {answer : Except SettingsError Bool} (hreloads : Reloads h files answer h')
    (hsource : h.source = some path) (htrue : answer = .ok true) : ∃ text, files.read? path = some text ∧
      Settings.ofText text = .ok h'.current ∧ h'.contentHash = hashOf text := by
  cases hreloads with
  | sourceless | unreadable | unchanged | rejected | postponed => simp at htrue
  | taken hpath hread hhash htext hfields =>
    obtain rfl := Option.some.inj (hsource.symm.trans hpath)
    exact ⟨_, hread, htext, rfl⟩

/-! ## Runs -/

/-- What can happen to a handle and the files around it. -/
inductive Event where
  | write (path : String) (content : ByteArray)
  | delete (path : String)
  | reload

/-- The files and the handle after one event. -/
def after (files : Files) (h : SettingsHandle) : Event → Files × SettingsHandle
  | .write path content => (files.write path content, h)
  | .delete path => (files.delete path, h)
  | .reload => (files, (h.reload files).2.1)

/-- The files and the handle after a run of events. -/
def afterAll (files : Files) (h : SettingsHandle) (events : List Event) : Files × SettingsHandle :=
  events.foldl (fun world event => after world.1 world.2 event) (files, h)

theorem after_keeps (files : Files) (hsynced : Synced path h) (event : Event) :
    Synced path (after files h event).2 ∧
      h.current.clients.startupChanges (after files h event).2.current.clients = [] := by
  cases event with
  | write | delete => exact ⟨hsynced, ClientSettings.startupChanges_eq_nil_iff.2 ⟨rfl, rfl⟩⟩
  | reload => exact (h.reloads files).keeps hsynced

theorem afterAll_keeps (files : Files) (hsynced : Synced path h) (events : List Event) :
    Synced path (afterAll files h events).2 ∧
      h.current.clients.startupChanges (afterAll files h events).2.current.clients = [] := by
  induction events generalizing files h with
  | nil => exact ⟨hsynced, ClientSettings.startupChanges_eq_nil_iff.2 ⟨rfl, rfl⟩⟩
  | cons event events ih =>
    obtain ⟨hnext, hchanges⟩ := after_keeps files hsynced event
    obtain ⟨hlast, hlater⟩ := ih (after files h event).1 hnext
    rw [ClientSettings.startupChanges_eq_nil_iff] at hchanges hlater
    exact ⟨hlast, ClientSettings.startupChanges_eq_nil_iff.2
      ⟨hchanges.1.trans hlater.1, hchanges.2.trans hlater.2⟩⟩

/-- After any run from when the file was opened, the settings pass validation and keep what is read at the
start only. The next reload leaves the handle as it is unless it tells that something was taken over; then
it is what the file holds now, and as long as the file holds that, a further reload takes over nothing. -/
theorem reload_atomic (hopen : openFile files path = (.ok h, log)) (events : List Event) :
    let files' := (afterAll files h events).1
    let h' := (afterAll files h events).2
    let answer := (h'.reload files').1
    let next := (h'.reload files').2.1
    h'.current.checked = .ok h'.current ∧
      h'.current.clients.sweepInterval = h.current.clients.sweepInterval ∧
      h'.current.clients.fullRefreshInterval = h.current.clients.fullRefreshInterval ∧
      (answer ≠ .ok true → next = h') ∧
      (answer = .ok true → ∃ text, files'.read? path = some text ∧
        Settings.ofText text = .ok next.current ∧ next.contentHash = hashOf text ∧
        ∀ files'' : Files, files''.read? path = files'.read? path →
          next.reload files'' = (.ok false, next, [])) := by
  intro files' h' answer next
  obtain ⟨hsynced, hchanges⟩ := afterAll_keeps files (synced_openFile hopen) events
  obtain ⟨text, htext, -⟩ := hsynced.text
  rw [ClientSettings.startupChanges_eq_nil_iff] at hchanges
  refine ⟨Settings.checked_eq_ok_iff.2 ⟨Settings.diagnostics_of_ofText htext, rfl⟩, hchanges.1.symm,
    hchanges.2.symm, (h'.reloads files').unchanged_of_ne, fun htrue => ?_⟩
  obtain ⟨text, hread, htext, hhash⟩ := (h'.reloads files').text_of_true hsynced.source htrue
  have hsource := ((h'.reloads files').keeps hsynced).1.source
  exact ⟨text, hread, htext, hhash, fun files'' hsame =>
    reload_of_hash_eq hsource (hsame.trans hread) hhash⟩

/-- A text is refused; the next one is taken over. -/
theorem reload_atomic_of_refused :
    let refused := "[clients]\nsweep_interval_ms = 0"
    let text := "[diff]\nearly_stop = false"
    let files : Files := Files.write "c" "".toUTF8 []
    let h : SettingsHandle := { source := some "c", contentHash := hashOf "" }
    let events : List Event := [.write "c" refused.toUTF8, .reload, .write "c" text.toUTF8]
    let files' := (afterAll files h events).1
    let next := (h.reload files').2.1
    openFile files "c" = (.ok h, []) ∧ (afterAll files h events).2 = h ∧
      (h.reload files').1 = .ok true ∧
      Settings.ofText text = .ok next.current ∧ next.reload files' = (.ok false, next, []) := by
  intro refused text files h events files' next
  have hname : Files.name? "c" = some "c" := by cbv
  have hopen : openFile files "c" = (.ok h, []) := by
    have hread : files.read? "c" = some "" := Files.read?_write [] hname ""
    have hparse : Settings.parse? "" = some ({}, []) := by decide +kernel
    have hchecked : Settings.checked {} = .ok {} := Settings.checked_eq_ok_iff.2 ⟨by decide, rfl⟩
    rw [openFile, hread]
    dsimp only
    rw [Settings.ofFileText, hparse]
    dsimp only
    rw [hchecked]
    rfl
  have hrefused : (afterAll files h events).2 = h := by
    refine (h.reloads (files.write "c" refused.toUTF8)).unchanged_of_ne fun htrue => ?_
    obtain ⟨text', s, hread, -, htext, -⟩ := (reload_eq_true_iff rfl).1 htrue
    rw [Files.read?_write files hname] at hread
    obtain rfl := Option.some.inj hread
    have hnone : (Settings.ofText refused).toOption = none := by decide +kernel
    simp [htext, Except.toOption] at hnone
  have hread : files'.read? "c" = some text :=
    Files.read?_write (files.write "c" refused.toUTF8) hname text
  have htrue : (h.reload files').1 = .ok true := by
    have hsome : (Settings.ofText text).toOption = some { diff := { earlyStop := false } } := by
      decide +kernel
    cases htext : Settings.ofText text with
    | error e => simp [htext, Except.toOption] at hsome
    | ok s =>
      obtain rfl : s = { diff := { earlyStop := false } } := by simpa [htext, Except.toOption] using hsome
      exact (reload_eq_true_iff rfl).2 ⟨text, _, hread, by decide +kernel, htext, rfl⟩
  obtain ⟨-, -, -, -, htaken⟩ := reload_atomic hopen events
  rw [hrefused] at htaken
  obtain ⟨text', hread', htext, -, hagain⟩ := htaken htrue
  obtain rfl : text' = text := Option.some.inj (hread'.symm.trans hread)
  exact ⟨hopen, hrefused, htrue, htext, hagain files' rfl⟩

end SettingsHandle
end StandingQuery
