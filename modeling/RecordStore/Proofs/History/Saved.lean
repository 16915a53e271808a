import Mathlib.Data.List.Chain
import RecordStore.Proofs.Disk.Resolve
import RecordStore.Proofs.Filter.Range
import RecordStore.Proofs.History.Bounded
import RecordStore.Proofs.Text.Lines
import RecordStore.Proofs.Text.Utf8

/-! # What was saved is loaded

    A history is saved with a command on each line, and loaded from whatever is there.  So what was
    saved is loaded again only because of what the commands are like: trimming leaves neither a
    blank line, which a load would pass over, nor a carriage return at the end of one, which it
    would take off.  Where nothing but the history writes its file, the file is never anything but
    the commands saved last, and no load is given up.  The route:

    * `Tidy`: what the commands of a history are like, which additions keep and which holds of the
      last ones too;
    * `readLines_written`: the file of tidy commands is read as these commands;
    * `Event`, `after`: calls, and another history in the place of the one there is;
    * `Kept`: the invariant of histories that nobody else writes for, kept by each event and, by
      induction, by all: `kept_afterAll`;
    * `saved_is_loaded`: what follows for the commands and for every load. -/

namespace RecordStore.History

open RecordStore.Text
open RecordStore.Filter (Trimmed trimmed_trimChars)

variable {h : History} {disk : Disk} {commands : List String} {command name : String}

/-! ## Commands as a history has them -/

/-- No command is empty or has white space around it, none takes more than one line, and none is
    the same as the one before it. -/
structure Tidy (commands : List String) : Prop where
  trimmed : ∀ command ∈ commands, Trimmed command
  oneLine : ∀ command ∈ commands, '\n' ∉ command.toList
  changing : commands.IsChain (· ≠ ·)

theorem tidy_nil : Tidy [] := ⟨List.forall_mem_nil _, List.forall_mem_nil _, .nil⟩

theorem Tidy.of_suffix {back all : List String} (tidy : Tidy all) (last : back <:+ all) :
    Tidy back where
  trimmed command mem := tidy.trimmed command (last.subset mem)
  oneLine command mem := tidy.oneLine command (last.subset mem)
  changing := tidy.changing.suffix last

/-- Tidy commands stay tidy with one more behind them that is not the last again. -/
theorem Tidy.append (tidy : Tidy commands) (trimmed : Trimmed command)
    (oneLine : '\n' ∉ command.toList) (new : commands.getLast? ≠ some command) :
    Tidy (commands ++ [command]) where
  trimmed := List.forall_mem_append.mpr ⟨tidy.trimmed, List.forall_mem_singleton.mpr trimmed⟩
  oneLine := List.forall_mem_append.mpr ⟨tidy.oneLine, List.forall_mem_singleton.mpr oneLine⟩
  changing := by
    refine tidy.changing.append (.singleton _) fun last hlast first hfirst => ?_
    cases hfirst
    exact fun same => new (same ▸ hlast)

/-- An addition keeps commands tidy, whatever white space was around the command. -/
theorem Tidy.add (tidy : Tidy h.commands) (oneLine : '\n' ∉ command.toList) :
    Tidy (h.add command).commands := by
  rcases commands_add h command with same | ⟨⟨ne, new⟩, added⟩
  · rwa [same]
  · have hne : trimChars command.toList ≠ [] := fun e => ne (by rw [trim, e])
    have tidy' : Tidy (h.commands ++ [trim command]) := by
      refine tidy.append (trimmed_trimChars hne) ?_ new
      rw [toList_trim]
      exact fun mem => oneLine (mem_of_mem_trimChars mem)
    rw [added]
    dsimp only
    split
    · exact tidy'.of_suffix (List.tail_suffix _)
    · exact tidy'

/-- A trimmed text begins with a character that is not blank. -/
theorem not_blank_of_trimmed {text : String} (trimmed : Trimmed text) :
    isBlankText text = false := by
  cases hs : text.toList with
  | nil => exact absurd (String.toList_eq_nil_iff.mp hs) trimmed.nonempty
  | cons c cs =>
      have hc := trimmed.head c (by rw [hs]; rfl)
      rw [isBlankText, hs, List.all_cons, hc, Bool.false_and]

/-! ## The file of a history -/

/-- The line of a command. -/
def line (command : String) : Bytes := encode command ++ [lineFeed]

/-- The file of commands. -/
def written (commands : List String) : Bytes := commands.flatMap line

/-- A command comes back from its line: it has no carriage return at its end that could be taken
    for one before the line feed. -/
theorem lineText_line (trimmed : Trimmed command) : lineText (line command) = .ok command := by
  have hdecode : decode (line command) = .ok (command ++ "\n") :=
    decode_append_encode (decode_encode command) "\n"
  have hlast : ∀ cs, command.toList.reverse ≠ '\r' :: cs := by
    intro cs hcs
    have hreturn := trimmed.last '\r' (by rw [List.getLast?_eq_head?_reverse, hcs]; rfl)
    exact nomatch hreturn
  have hrev : (command ++ "\n").toList.reverse = '\n' :: command.toList.reverse := by simp
  rw [lineText, hdecode, Except.map, hrev]
  split
  · next cs heq => exact absurd (List.cons.inj heq).2 (hlast cs)
  · next cs heq => rw [← (List.cons.inj heq).2, List.reverse_reverse, String.ofList_toList]
  · next hno => exact absurd rfl (hno _)

/-- The lines of the file are those of the commands, since no command takes more than one. -/
theorem lines_written (tidy : Tidy commands) : lines (written commands) = commands.map line :=
  lines_flatMap fun command mem =>
    ⟨encode command, lineFeed_notMem_encode (tidy.oneLine command mem), rfl⟩

/-- The lines of trimmed commands are read as the commands. -/
private theorem readLines_lines (trimmed : ∀ command ∈ commands, Trimmed command) :
    readLines (commands.map line) = (commands, .ok ()) := by
  induction commands with
  | nil => rfl
  | cons command commands ih =>
      obtain ⟨hcommand, hcommands⟩ := List.forall_mem_cons.mp trimmed
      rw [List.map_cons, readLines, lineText_line hcommand]
      simp [ih hcommands, not_blank_of_trimmed hcommand]

/-- The file of tidy commands is read as these commands. -/
theorem readLines_written (tidy : Tidy commands) :
    readLines (lines (written commands)) = (commands, .ok ()) := by
  rw [lines_written tidy, readLines_lines tidy.trimmed]

/-- From a file with the lines of commands the last of them are loaded. -/
theorem load_written (tidy : Tidy commands) (leads : disk.resolve false h.path = .ok (.file name))
    (holds : disk.contents? name = some (written commands)) :
    h.load disk = ({ h with commands := lastOnes h.limit commands }, .ok ()) := by
  have seen : disk.pathExists h.path = true := by rw [Disk.pathExists, leads]
  have opens : disk.openFile h.path = .ok (.ok (.file name)) := by
    rw [Disk.openFile, leads]
    rfl
  have reads : disk.read (.file name) = written commands := by rw [Disk.read, holds]; rfl
  rw [load, if_pos seen, opens]
  simp only [reads, readLines_written tidy]

/-! ## What happens to a history -/

/-- A call on a history, or another history without commands in its place, for the same file. -/
inductive Event where
  | call (c : Call)
  | renew (limit : Nat)
  deriving Repr, DecidableEq

namespace Event

/-- An event in which nobody else changes the disk and no command with a line feed is given. -/
def Own : Event → Prop
  | .call (.add command) => '\n' ∉ command.toList
  | .call (.change _) => False
  | _ => True

instance : DecidablePred Own
  | .call (.add command) => inferInstanceAs (Decidable ('\n' ∉ command.toList))
  | .call (.change _) => .isFalse id
  | .call .load | .call .save | .call (.search _) | .renew _ => .isTrue trivial

/-- How many commands may be kept from the event on, where that is another number than before. -/
def limit? : Event → Option Nat
  | .call _ => none
  | .renew limit => some limit

end Event

namespace OnDisk

variable {s : OnDisk} {first : Disk} {path : String} {saved : Option (List String)}

/-- The history and the disk after an event. -/
def after (s : OnDisk) : Event → OnDisk
  | .call c => (s.call c).1
  | .renew limit => { s with history := new s.history.path limit }

/-- The history and the disk after events, one after the other. -/
def afterAll (s : OnDisk) (events : List Event) : OnDisk := events.foldl after s

/-- No event changes the file of a history, and only a new history brings a new limit. -/
theorem settings_after (s : OnDisk) (event : Event) :
    (s.after event).history.path = s.history.path ∧
      (s.after event).history.limit = event.limit?.getD s.history.limit := by
  cases event with
  | call c => exact settings_call s c
  | renew limit => exact ⟨rfl, rfl⟩

/-- After events the limit is that of the last new history. -/
theorem settings_afterAll (s : OnDisk) (events : List Event) :
    (s.afterAll events).history.path = s.history.path ∧
      (s.afterAll events).history.limit
        = (events.filterMap Event.limit?).getLastD s.history.limit := by
  induction events generalizing s with
  | nil => exact ⟨rfl, rfl⟩
  | cons event events ih =>
      obtain ⟨hpath, hlimit⟩ := settings_after s event
      obtain ⟨hpaths, hlimits⟩ := ih (s.after event)
      refine ⟨hpaths.trans hpath, hlimits.trans ?_⟩
      rw [hlimit, List.filterMap_cons]
      cases event.limit? with
      | none => rfl
      | some limit => exact List.getLastD_cons.symm

/-! ## The file and the history of it -/

/-- What a disk holds for a path without a file on the disk `first`, when nothing but the saves of a
    history writes there: what was there, and after a save the commands saved last. -/
inductive Backed (first : Disk) (path : String) : Option (List String) → Disk → Prop where
  | unsaved (noFile : ∀ handle, first.openFile path ≠ .ok (.ok handle)) :
      Backed first path none first
  | saved {disk : Disk} {name : String} {commands : List String}
      (made : ∃ name, first.resolve true path = .ok (.absent name))
      (leads : ∀ making, disk.resolve making path = .ok (.file name))
      (holds : disk.contents? name = some (written commands)) (tidy : Tidy commands) :
      Backed first path (some commands) disk

/-- The invariant: the commands are tidy and not too many, and the file has those saved last. -/
structure Kept (first : Disk) (saved : Option (List String)) (s : OnDisk) : Prop where
  fits : ¬ s.history.Overfull
  tidy : Tidy s.history.commands
  backed : Backed first s.history.path saved s.disk

/-- A new history keeps the invariant, on a disk without a file for it. -/
theorem kept_new (limit : Nat) (noFile : ∀ handle, first.openFile path ≠ .ok (.ok handle)) :
    Kept first none ⟨new path limit, first⟩ :=
  ⟨Nat.not_lt_zero limit, tidy_nil, .unsaved noFile⟩

/-- Other commands for the same file keep the invariant where they are tidy and not too many. -/
theorem Kept.withHistory (kept : Kept first saved s) (path : h.path = s.history.path)
    (fits : ¬ h.Overfull) (tidy : Tidy h.commands) : Kept first saved { s with history := h } :=
  ⟨fits, tidy, path ▸ kept.backed⟩

/-- A save succeeds when a file could be made at first, and is refused otherwise. -/
theorem Backed.save (backed : Backed first h.path saved disk) (tidy : Tidy h.commands) :
    (∃ disk', h.save disk = .ok disk' ∧ Backed first h.path (some h.commands) disk' ∧
      ∃ name, first.resolve true h.path = .ok (.absent name)) ∨
    ∃ fault, h.save disk = .error fault ∧
      ¬ ∃ name, first.resolve true h.path = .ok (.absent name) := by
  -- where a file is or can be made, the commands are its contents from now on
  have writes {name : String} (made : ∃ name, first.resolve true h.path = .ok (.absent name))
      (leads : disk.resolve true h.path = .ok (.file name) ∨
        disk.resolve true h.path = .ok (.absent name)) :
      ∃ disk', h.save disk = .ok disk' ∧ Backed first h.path (some h.commands) disk' ∧
        ∃ name, first.resolve true h.path = .ok (.absent name) := by
    refine ⟨_, Disk.write_eq_setContents leads h.contents, ?_, made⟩
    exact .saved made (Disk.resolve_setContents leads _) (Disk.contents?_setContents_self ..) tidy
  cases backed with
  | saved made leads _ _ => exact .inl (writes made (.inl (leads true)))
  | unsaved noFile =>
      rcases Disk.makes_or_refuses noFile with ⟨name, made⟩ | ⟨unmade, refuses⟩
      · exact .inl (writes ⟨name, made⟩ (.inr made))
      · obtain ⟨fault, refused⟩ := refuses h.contents
        exact .inr ⟨fault, refused, unmade⟩

/-! ## Events -/

/-- Every event but a save keeps the invariant, with the same commands in the file. -/
theorem Kept.after {event : Event} (kept : Kept first saved s) (own : event.Own)
    (other : event ≠ .call .save) : Kept first saved (s.after event) := by
  cases event with
  | renew limit => exact kept.withHistory rfl (Nat.not_lt_zero limit) tidy_nil
  | call c =>
      cases c with
      | save => exact absurd rfl other
      | change disk => exact own.elim
      | search pattern => exact kept
      | add command =>
          have oneLine : '\n' ∉ command.toList := own
          have fits : ¬ (s.history.add command).Overfull := mt (overfull_add command).mp kept.fits
          exact kept.withHistory (settings_add s.history command).1 fits (kept.tidy.add oneLine)
      | load =>
          rw [OnDisk.after, call_load]
          cases kept.backed with
          | unsaved noFile =>
              -- there is nothing to read, so all a load can meet is a directory
              have outcome := loaded s.history s.disk
              generalize s.history.load s.disk = result at outcome
              cases outcome with
              | absent => exact kept
              | directory => exact kept.withHistory rfl (Nat.not_lt_zero _) tidy_nil
              | whole opens | cut opens => exact absurd opens (noFile _)
          | saved made leads holds tidy =>
              rw [load_written tidy (leads false) holds]
              exact kept.withHistory rfl (Nat.not_lt.mpr (length_lastOnes_le _ _))
                (tidy.of_suffix (List.drop_suffix _ _))

/-- A save that succeeds has the commands in the file, and one that is refused changes nothing. -/
theorem Kept.save (kept : Kept first saved s) :
    ((s.call .save).2 = .ok [] ∧ Kept first (some s.history.commands) (s.after (.call .save)) ∧
      ∃ name, first.resolve true s.history.path = .ok (.absent name)) ∨
    (s.call .save).2 ≠ .ok [] ∧ s.after (.call .save) = s ∧
      ¬ ∃ name, first.resolve true s.history.path = .ok (.absent name) := by
  rw [OnDisk.after, call]
  obtain ⟨disk, hsave, backed, made⟩ | ⟨fault, hsave, unmade⟩ := kept.backed.save kept.tidy
  · rw [hsave]
    exact .inl ⟨rfl, ⟨kept.fits, kept.tidy, backed⟩, made⟩
  · rw [hsave]
    refine .inr ⟨fun h => ?_, rfl, unmade⟩
    cases h

/-- Events without a save leave the commands in the file that were saved last. -/
theorem Kept.afterAll (kept : Kept first saved s) {events : List Event}
    (own : ∀ event ∈ events, event.Own) (other : .call .save ∉ events) :
    Kept first saved (s.afterAll events) := by
  induction events generalizing s with
  | nil => exact kept
  | cons event events ih =>
      obtain ⟨hevent, hevents⟩ := List.forall_mem_cons.mp own
      obtain ⟨ne, hother⟩ := not_or.mp (mt List.mem_cons.mpr other)
      exact ih (kept.after hevent (Ne.symm ne)) hevents hother

/-- **Events, one after the other**: the invariant holds after them, for what was saved last. -/
theorem kept_afterAll (kept : Kept first saved s) {events : List Event}
    (own : ∀ event ∈ events, event.Own) : ∃ saved, Kept first saved (s.afterAll events) := by
  induction events generalizing s saved with
  | nil => exact ⟨saved, kept⟩
  | cons event events ih =>
      obtain ⟨hevent, hevents⟩ := List.forall_mem_cons.mp own
      by_cases hsave : event = .call .save
      · subst hsave
        obtain ⟨-, saves, -⟩ | ⟨-, same, -⟩ := kept.save
        · exact ih saves hevents
        · exact ih (same ▸ kept) hevents
      · exact ih (kept.after hevent hsave) hevents

/-- **What was saved is loaded.**  Where the path of a new history leads, there is no file, and
    nothing but the saves of this history, and of those that take its place, writes there.  Then,
    after any events, there are not more commands than the present limit; none is blank or has
    white space around it, and none is the same as the one before it.  A save succeeds exactly
    when a file could be made at first.  After one that did and up to the next, every load succeeds
    and gives the last of the commands saved, as many of them as the history that loads them may
    keep. -/
theorem saved_is_loaded (path : String) (limit : Nat) (disk : Disk) (events : List Event)
    (noFile : ∀ handle, disk.openFile path ≠ .ok (.ok handle))
    (own : ∀ event ∈ events, event.Own) :
    let start : OnDisk := ⟨new path limit, disk⟩
    let now := start.afterAll events
    now.history.limit = (events.filterMap Event.limit?).getLastD limit ∧
    now.history.commands.length ≤ now.history.limit ∧
    (∀ command ∈ now.history.commands, Trimmed command) ∧
    now.history.commands.IsChain (· ≠ ·) ∧
    ((now.call .save).2 = .ok [] ↔ ∃ name, disk.resolve true path = .ok (.absent name)) ∧
    ∀ before later, events = before ++ .call .save :: later → .call .save ∉ later →
      ((start.afterAll before).call .save).2 = .ok [] →
        ∃ loaded, now.call .load = ({ now with history.commands := loaded }, .ok []) ∧
          loaded <:+ (start.afterAll before).history.commands ∧
          loaded.length
            = min now.history.limit (start.afterAll before).history.commands.length := by
  intro start now
  have kept_start : Kept disk none start := kept_new limit noFile
  obtain ⟨saved, kept⟩ := kept_afterAll kept_start own
  obtain ⟨hpath, hlimit⟩ := settings_afterAll start events
  refine ⟨hlimit, Nat.not_lt.mp kept.fits, kept.tidy.trimmed, kept.tidy.changing, ?_, ?_⟩
  · have hmade := kept.save
    rw [hpath] at hmade
    rcases hmade with ⟨saves, -, made⟩ | ⟨refused, -, unmade⟩
    · exact iff_of_true saves made
    · exact iff_of_false refused unmade
  · intro before later hevents other saves
    rw [hevents] at own
    obtain ⟨hbefore, hlater⟩ := List.forall_mem_append.mp own
    obtain ⟨saved', kept_before⟩ := kept_afterAll kept_start hbefore
    obtain ⟨-, kept_save, -⟩ | ⟨refused, -⟩ := kept_before.save
    · have kept_now : Kept disk (some (start.afterAll before).history.commands) now := by
        have hnow : now = ((start.afterAll before).after (.call .save)).afterAll later := by
          show start.afterAll events = _
          rw [hevents, afterAll, List.foldl_append]
          rfl
        rw [hnow]
        exact kept_save.afterAll (List.forall_mem_cons.mp hlater).2 other
      refine ⟨lastOnes now.history.limit (start.afterAll before).history.commands, ?_,
        List.drop_suffix _ _, ?_⟩
      · cases kept_now.backed with
        | saved made leads holds tidy =>
            rw [call_load, load_written tidy (leads false) holds]
            rfl
      · rw [lastOnes, List.length_drop]
        omega
    · exact absurd saves refused

/-- A command is given twice, with white space around it and a carriage return in it, and two more
    are given. -/
def firstSession : List Event :=
  [.call (.add " a\rb "), .call (.add "a\rb"), .call (.add "c"), .call (.add "d")]

/-- A command is given that is not saved, and there is another history, with room for two. -/
def secondSession : List Event := [.call (.add "e"), .renew 2]

/-- Of the three commands that were saved the last two are loaded, by a history that has room for
    two. -/
theorem saved_is_loaded_secondSession :
    let start : OnDisk := ⟨new "history.txt" 5, .empty⟩
    let events := firstSession ++ .call .save :: secondSession
    (∀ handle, Disk.empty.openFile "history.txt" ≠ .ok (.ok handle)) ∧
    (∀ event ∈ events, event.Own) ∧
    ((start.afterAll firstSession).call .save).2 = .ok [] ∧
    (start.afterAll firstSession).history.commands = ["a\rb", "c", "d"] ∧
    ((start.afterAll events).call .load).1.history.commands = ["c", "d"] := by
  intro start events
  have noFile : ∀ handle, Disk.empty.openFile "history.txt" ≠ .ok (.ok handle) := by
    have absent : Disk.empty.openFile "history.txt" = .error .notFound := by rfl
    exact fun handle opens => nomatch absent.symm.trans opens
  have own : ∀ event ∈ events, event.Own := by decide
  have saves : ((start.afterAll firstSession).call .save).2 = .ok [] := by decide +kernel
  have given : (start.afterAll firstSession).history.commands = ["a\rb", "c", "d"] := by
    decide +kernel
  refine ⟨noFile, own, saves, given, ?_⟩
  obtain ⟨hlimit, -, -, -, -, loads⟩ := saved_is_loaded "history.txt" 5 .empty events noFile own
  obtain ⟨loaded, hload, last, hlength⟩ := loads firstSession secondSession rfl (by decide) saves
  rw [hlimit, given] at hlength
  rw [given, List.suffix_iff_eq_drop, hlength] at last
  rw [hload]
  exact last

end OnDisk

end RecordStore.History
