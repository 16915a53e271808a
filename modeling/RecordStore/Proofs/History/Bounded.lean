import RecordStore.History
import RecordStore.Proofs.Sequence

/-! # How long a history gets

    A history of commands is to keep no more of them than its limit.  An added command takes the
    place of the oldest where there is no room for it, and of what a file holds the last ones are
    loaded.  But a load that meets a line that is no text is given up before the limit is applied:
    the commands from the lines before that line are then all there, and those that were there
    before the load are not.  The route:

    * `readLines_cases` and `loaded`: what the lines of a file give, and all that a load can do;
    * `commands_add`: all that an addition can do;
    * `OnDisk`, `Call`, `call`, `run`: calls on a history whose file anybody may change in between;
    * `overfull_call`, `overfull_run`: when the limit is exceeded after one call and, by induction,
      after a run;
    * `limit_lt_iff_cut`: both for a history from its beginning, with what failed loads leave. -/

namespace RecordStore.History

open RecordStore.Text

variable {h : History} {disk : Disk}

/-! ## What a load does -/

/-- The commands that the texts of lines give. -/
def ofTexts (texts : List String) : List String := texts.filter fun text => !isBlankText text

/-- Lines of which one is no text, and the texts of those before it. -/
def CutAfter (ls : List Bytes) (texts : List String) : Prop :=
  ∃ front line back fault,
    ls = front ++ line :: back ∧ front.mapM lineText = .ok texts ∧ decode line = .error fault

/-- A blank line gives no command. -/
theorem ofTexts_cons (text : String) (texts : List String) :
    ofTexts (text :: texts) =
      if isBlankText text then ofTexts texts else text :: ofTexts texts := by
  cases hblank : isBlankText text <;> simp [ofTexts, hblank]

/-- A line is refused for what it is before its end is taken off. -/
theorem lineText_eq_error_iff {line : Bytes} {fault : Malformed} :
    lineText line = .error fault ↔ decode line = .error fault := by
  rw [lineText]
  cases decode line with
  | error fault' => exact Iff.rfl
  | ok text => exact iff_of_false (fun h => nomatch h) fun h => nomatch h

/-- Lines are read to the last, or up to one that is no text. -/
theorem readLines_cases (ls : List Bytes) :
    (∃ texts, ls.mapM lineText = .ok texts ∧ readLines ls = (ofTexts texts, .ok ())) ∨
      ∃ texts, CutAfter ls texts ∧ readLines ls = (ofTexts texts, .error .notText) := by
  induction ls with
  | nil => exact .inl ⟨[], rfl, rfl⟩
  | cons line rest ih =>
      cases hline : lineText line with
      | error fault =>
          refine .inr ⟨[], ⟨[], line, rest, fault, rfl, rfl, lineText_eq_error_iff.mp hline⟩, ?_⟩
          rw [readLines, hline]
          rfl
      | ok text =>
          have hmore {ls : List Bytes} {texts : List String} (h : ls.mapM lineText = .ok texts) :
              (line :: ls).mapM lineText = .ok (text :: texts) := by
            rw [List.mapM_cons, hline, h]
            rfl
          rcases ih with ⟨texts, htexts, hread⟩ | ⟨texts, cut, hread⟩
          · refine .inl ⟨text :: texts, hmore htexts, ?_⟩
            simp only [readLines, hline, hread, ofTexts_cons]
          · obtain ⟨front, bad, back, fault, rfl, hfront, hbad⟩ := cut
            have hcut : CutAfter (line :: (front ++ bad :: back)) (text :: texts) :=
              ⟨line :: front, bad, back, fault, rfl, hmore hfront, hbad⟩
            refine .inr ⟨text :: texts, hcut, ?_⟩
            simp only [readLines, hline, hread, ofTexts_cons]

/-- All that a load can make of a history. -/
inductive Loaded (h : History) (disk : Disk) : History × Except Disk.Fault Unit → Prop where
  | absent (unseen : disk.pathExists h.path = false) : Loaded h disk (h, .ok ())
  | directory (leads : disk.resolve false h.path = .ok .directory) :
      Loaded h disk ({ h with commands := [] }, .error .isDirectory)
  | whole {handle : Disk.Handle} {texts : List String}
      (opens : disk.openFile h.path = .ok (.ok handle))
      (reads : (lines (disk.read handle)).mapM lineText = .ok texts) :
      Loaded h disk ({ h with commands := lastOnes h.limit (ofTexts texts) }, .ok ())
  | cut {handle : Disk.Handle} {texts : List String}
      (opens : disk.openFile h.path = .ok (.ok handle))
      (cut : CutAfter (lines (disk.read handle)) texts) :
      Loaded h disk ({ h with commands := ofTexts texts }, .error .notText)

/-- What a load leaves where the path leads to an open file. -/
private theorem Loaded.of_handle {handle : Disk.Handle}
    (opens : disk.openFile h.path = .ok (.ok handle)) (seen : disk.pathExists h.path = true) :
    Loaded h disk (h.load disk) := by
  rw [load, if_pos seen, opens]
  obtain ⟨texts, reads, hread⟩ | ⟨texts, cut, hread⟩ := readLines_cases (lines (disk.read handle))
  · simp only [hread]
    exact .whole opens reads
  · simp only [hread]
    exact .cut opens cut

/-- Every load ends in one of the ways listed in `Loaded`. -/
theorem loaded (h : History) (disk : Disk) : Loaded h disk (h.load disk) := by
  cases hto : disk.resolve false h.path with
  | error fault =>
      have unseen : disk.pathExists h.path = false := by rw [Disk.pathExists, hto]
      rw [load, if_neg (by rw [unseen]; exact Bool.false_ne_true)]
      exact .absent unseen
  | ok target =>
      cases target with
      | absent name =>
          have unseen : disk.pathExists h.path = false := by rw [Disk.pathExists, hto]
          rw [load, if_neg (by rw [unseen]; exact Bool.false_ne_true)]
          exact .absent unseen
      | directory =>
          have seen : disk.pathExists h.path = true := by rw [Disk.pathExists, hto]
          have opens : disk.openFile h.path = .ok (.error .isDirectory) := by
            rw [Disk.openFile, hto]
            rfl
          rw [load, if_pos seen, opens]
          exact .directory hto
      | device =>
          have seen : disk.pathExists h.path = true := by rw [Disk.pathExists, hto]
          have opens : disk.openFile h.path = .ok (.ok .device) := by
            rw [Disk.openFile, hto]
            rfl
          exact .of_handle opens seen
      | file name =>
          have seen : disk.pathExists h.path = true := by rw [Disk.pathExists, hto]
          have opens : disk.openFile h.path = .ok (.ok (.file name)) := by
            rw [Disk.openFile, hto]
            rfl
          exact .of_handle opens seen

/-- A history with more commands than it may keep. -/
def Overfull (h : History) : Prop := h.limit < h.commands.length

instance (h : History) : Decidable h.Overfull := inferInstanceAs (Decidable (_ < _))

theorem length_lastOnes_le {α : Type} (n : Nat) (l : List α) : (lastOnes n l).length ≤ n := by
  rw [lastOnes, List.length_drop]
  omega

/-- The limit is exceeded after a load that was given up at a line that is no text, or else when
    it was before and there was nothing to load. -/
theorem overfull_load :
    (h.load disk).1.Overfull ↔
      ((h.load disk).2 = .error .notText ∧ (h.load disk).1.Overfull) ∨
        h.Overfull ∧ disk.pathExists h.path = false := by
  constructor
  · intro full
    generalize hload : h.load disk = result at full
    have outcome := hload ▸ loaded h disk
    cases outcome with
    | absent unseen => exact .inr ⟨full, unseen⟩
    | directory => exact absurd full (Nat.not_lt_zero _)
    | whole => exact absurd full (Nat.not_lt.mpr (length_lastOnes_le _ _))
    | cut => exact .inl ⟨rfl, full⟩
  · rintro (⟨-, full⟩ | ⟨full, unseen⟩)
    · exact full
    · rw [load, if_neg (by rw [unseen]; exact Bool.false_ne_true)]
      exact full

/-! ## What an addition does -/

/-- An addition changes nothing, or puts a command that is neither blank nor the same as the last
    behind the others, the oldest of which makes room for it when as many are there as may be kept,
    or more. -/
theorem commands_add (h : History) (command : String) :
    h.add command = h ∨
      (trim command ≠ "" ∧ h.commands.getLast? ≠ some (trim command)) ∧
      h.add command = { h with
        commands := (if h.limit ≤ h.commands.length then (h.commands ++ [trim command]).tail
          else h.commands ++ [trim command]) } := by
  rw [add]
  by_cases hsame : ((trim command).isEmpty || h.commands.getLast? == some (trim command)) = true
  · exact .inl (if_pos hsame)
  · refine .inr ⟨by simpa using hsame, (if_neg hsame).trans ?_⟩
    simp only [List.length_append, List.length_singleton, Nat.lt_succ_iff]

/-- Additions neither bring a history over its limit nor back to it. -/
theorem overfull_add (command : String) : (h.add command).Overfull ↔ h.Overfull := by
  rcases commands_add h command with same | ⟨-, added⟩
  · rw [same]
  · rw [added]
    show h.limit < List.length (if _ then _ else _) ↔ h.limit < h.commands.length
    split
    · rw [List.length_tail, List.length_append]
      exact Iff.rfl
    · rw [List.length_append, List.length_singleton]
      omega

/-- Neither a load nor an addition changes the path or the limit. -/
theorem settings_load (h : History) (disk : Disk) :
    (h.load disk).1.path = h.path ∧ (h.load disk).1.limit = h.limit := by
  have outcome := loaded h disk
  generalize h.load disk = result at outcome
  cases outcome <;> exact ⟨rfl, rfl⟩

/-- An addition changes neither the file of a history nor its limit. -/
theorem settings_add (h : History) (command : String) :
    (h.add command).path = h.path ∧ (h.add command).limit = h.limit := by
  rcases commands_add h command with same | ⟨-, added⟩
  · rw [same]
    exact ⟨rfl, rfl⟩
  · rw [added]
    exact ⟨rfl, rfl⟩

/-! ## Calls -/

/-- A history with the disk that its file is on. -/
structure OnDisk where
  history : History
  disk : Disk
  deriving Repr, DecidableEq

/-- What can happen: the calls on a history, and a change of the disk by others. -/
inductive Call where
  | load
  | add (command : String)
  | save
  | search (pattern : String)
  | change (disk : Disk)
  deriving Repr, DecidableEq

namespace OnDisk

variable {s : OnDisk}

/-- The history and the disk after a call, and the commands that it finds or why it fails. -/
def call (s : OnDisk) : Call → OnDisk × Except Disk.Fault (List String)
  | .load =>
    let (history, outcome) := s.history.load s.disk
    ({ s with history := history }, outcome.map fun _ => [])
  | .add command => ({ s with history := s.history.add command }, .ok [])
  | .save =>
    match s.history.save s.disk with
    | .ok disk => ({ s with disk := disk }, .ok [])
    | .error fault => (s, .error fault)
  | .search pattern => (s, .ok (s.history.search pattern))
  | .change disk => ({ s with disk := disk }, .ok [])

/-- The history and the disk after a run of calls. -/
def run (s : OnDisk) : List Call → OnDisk
  | [] => s
  | c :: calls => run (s.call c).1 calls

/-- The calls of a run, each with the history and the disk that it found. -/
def trace (s : OnDisk) : List Call → List (OnDisk × Call)
  | [] => []
  | c :: calls => (s, c) :: trace (s.call c).1 calls

theorem call_load (s : OnDisk) :
    s.call .load = ({ s with history := (s.history.load s.disk).1 },
      (s.history.load s.disk).2.map fun _ => []) := rfl

/-- No call changes the file of a history or its limit. -/
theorem settings_call (s : OnDisk) (c : Call) :
    (s.call c).1.history.path = s.history.path ∧ (s.call c).1.history.limit = s.history.limit := by
  cases c with
  | load => exact settings_load s.history s.disk
  | add command => exact settings_add s.history command
  | save =>
      rw [call]
      cases s.history.save s.disk <;> exact ⟨rfl, rfl⟩
  | search pattern | change disk => exact ⟨rfl, rfl⟩

theorem settings_run (s : OnDisk) (calls : List Call) :
    (s.run calls).history.path = s.history.path ∧
      (s.run calls).history.limit = s.history.limit := by
  induction calls generalizing s with
  | nil => exact ⟨rfl, rfl⟩
  | cons c calls ih =>
      obtain ⟨hpath, hlimit⟩ := settings_call s c
      obtain ⟨hpaths, hlimits⟩ := ih (s.call c).1
      exact ⟨hpaths.trans hpath, hlimits.trans hlimit⟩

/-- A load that is given up at a line that is no text, with more commands before that line than may
    be kept. -/
def CutLong (event : OnDisk × Call) : Prop :=
  event.2 = .load ∧ (event.1.call .load).2 = .error .notText ∧
    (event.1.call .load).1.history.Overfull

/-- Any call but a load that finds something to load. -/
def Unread (event : OnDisk × Call) : Prop :=
  event.2 = .load → event.1.disk.pathExists event.1.history.path = false

/-- A load fails just as its reading of the file does. -/
theorem call_load_eq_error_iff {fault : Disk.Fault} :
    (s.call .load).2 = .error fault ↔ (s.history.load s.disk).2 = .error fault := by
  rw [call_load]
  cases (s.history.load s.disk).2 with
  | error fault' =>
      show Except.error fault' = .error fault ↔ Except.error fault' = .error fault
      rw [Except.error.injEq, Except.error.injEq]
  | ok u => exact iff_of_false (fun h => nomatch h) fun h => nomatch h

/-- **One call**: the limit is exceeded after it when the call is a load cut off behind too many
    commands, or when it was exceeded before and the call loads nothing. -/
theorem overfull_call (s : OnDisk) (c : Call) :
    (s.call c).1.history.Overfull ↔ CutLong (s, c) ∨ s.history.Overfull ∧ Unread (s, c) := by
  have other (ne : c ≠ .load) : (CutLong (s, c) ∨ s.history.Overfull ∧ Unread (s, c)) ↔
      s.history.Overfull := by
    refine ⟨?_, fun full => .inr ⟨full, fun e => absurd e ne⟩⟩
    rintro (⟨e, -⟩ | ⟨full, -⟩)
    · exact absurd e ne
    · exact full
  cases c with
  | load =>
      have cut : CutLong (s, .load) ↔ (s.history.load s.disk).2 = .error .notText ∧
          (s.history.load s.disk).1.Overfull := by
        rw [CutLong, call_load_eq_error_iff, call_load]
        exact and_iff_right rfl
      have unread : Unread (s, .load) ↔ s.disk.pathExists s.history.path = false :=
        forall_prop_of_true rfl
      rw [cut, unread, call_load]
      exact overfull_load
  | add command =>
      rw [other (fun e => nomatch e), call]
      dsimp only
      exact overfull_add command
  | save =>
      rw [other (fun e => nomatch e), call]
      cases s.history.save s.disk with
      | error fault => exact Iff.rfl
      | ok disk => exact Iff.rfl
  | search pattern => exact (other (fun e => nomatch e)).symm
  | change disk => exact (other (fun e => nomatch e)).symm

/-- **A run of calls**: the limit is exceeded after it when some load was cut off behind too many
    commands and nothing was loaded since, or when it was exceeded before and nothing was loaded. -/
theorem overfull_run (s : OnDisk) (calls : List Call) :
    (s.run calls).history.Overfull ↔
      Since CutLong Unread (s.trace calls) ∨
        s.history.Overfull ∧ ∀ event ∈ s.trace calls, Unread event := by
  induction calls generalizing s with
  | nil => exact since_nil_or.symm
  | cons c calls ih => exact (ih (s.call c).1).trans (since_cons_or (overfull_call s c))

/-- What a load that fails leaves. -/
theorem commands_of_failed {fault : Disk.Fault} (fails : (s.call .load).2 = .error fault) :
    (fault = .isDirectory ∧ s.disk.resolve false s.history.path = .ok .directory ∧
        (s.call .load).1 = { s with history.commands := [] }) ∨
      fault = .notText ∧ ∃ handle texts, s.disk.openFile s.history.path = .ok (.ok handle) ∧
        CutAfter (lines (s.disk.read handle)) texts ∧
        (s.call .load).1 = { s with history.commands := ofTexts texts } := by
  rw [call_load_eq_error_iff] at fails
  rw [call]
  generalize hload : s.history.load s.disk = result at fails
  have outcome := hload ▸ loaded s.history s.disk
  cases outcome with
  | absent | whole => exact nomatch fails
  | directory leads =>
      cases fails
      exact .inl ⟨rfl, leads, rfl⟩
  | @cut handle texts opens cut =>
      cases fails
      exact .inr ⟨rfl, handle, texts, opens, cut, rfl⟩

/-- **Only a load that is cut off makes a history longer than its limit.**  A new history, on any
    disk and after any calls, has more commands than its limit exactly when some load was given up
    at a line that is no text, behind more commands than the limit, and no load has found anything
    since.  So the limit holds after every call where no load was given up in this way.  A load
    that fails does not keep the commands that were there: it leaves none if the path leads to a
    directory, and else those of the lines before the first that is no text. -/
theorem limit_lt_iff_cut (path : String) (limit : Nat) (disk : Disk) (calls : List Call) :
    let start : OnDisk := ⟨new path limit, disk⟩
    (limit < (start.run calls).history.commands.length ↔
      Since CutLong Unread (start.trace calls)) ∧
    ((∀ event ∈ start.trace calls, event.2 = .load →
        (event.1.call .load).2 ≠ .error .notText) →
      (start.run calls).history.commands.length ≤ limit) ∧
    ∀ fault, ((start.run calls).call .load).2 = .error fault →
      (fault = .isDirectory ∧ (start.run calls).disk.resolve false path = .ok .directory ∧
          ((start.run calls).call .load).1.history.commands = []) ∨
        fault = .notText ∧ ∃ handle texts,
          (start.run calls).disk.openFile path = .ok (.ok handle) ∧
          CutAfter (lines ((start.run calls).disk.read handle)) texts ∧
          ((start.run calls).call .load).1.history.commands = ofTexts texts := by
  intro start
  obtain ⟨hpath, hlimit⟩ := settings_run start calls
  have full : limit < (start.run calls).history.commands.length ↔
      Since CutLong Unread (start.trace calls) := by
    have hrun := overfull_run start calls
    rw [Overfull, hlimit] at hrun
    -- a new history has no commands, so it does not exceed its limit
    refine hrun.trans (or_iff_left ?_)
    rintro ⟨none, -⟩
    exact Nat.not_lt_zero _ none
  refine ⟨full, fun texts => Nat.le_of_not_lt fun long => ?_, fun fault fails => ?_⟩
  · obtain ⟨before, event, after, htrace, ⟨hload, cut, -⟩, -⟩ := full.mp long
    exact texts event (htrace ▸ List.mem_append_right _ List.mem_cons_self) hload cut
  · obtain ⟨rfl, leads, left⟩ | ⟨rfl, handle, texts, opens, cut, left⟩ := commands_of_failed fails
    · exact .inl ⟨rfl, by rwa [hpath] at leads, by rw [left]⟩
    · exact .inr ⟨rfl, handle, texts, by rwa [hpath] at opens, cut, by rw [left]⟩

/-- A disk with a file of three lines, of which the last is no text. -/
def brokenFile : Disk := ⟨[("history.txt", encode "a\nb\n" ++ [255, lineFeed])], []⟩

/-- A new history for this file, with room for one command. -/
def oneCommand : OnDisk := ⟨new "history.txt" 1, brokenFile⟩

/-- After a load from this file the history is over its limit, also when a command is added and it
    is saved.  Once it was saved without a load, it is loaded without going over the limit.  A load
    from the file as it was leaves the commands before the line that is no text. -/
theorem limit_lt_oneCommand :
    1 < (oneCommand.run [.load, .add "c", .save]).history.commands.length ∧
    (oneCommand.run [.add "c", .save, .load]).history.commands.length ≤ 1 ∧
    ((oneCommand.run [.add "old"]).call .load).2 = .error .notText ∧
    ∃ texts, ((oneCommand.run [.add "old"]).call .load).1.history.commands = ofTexts texts := by
  have fails : ((oneCommand.run [.add "old"]).call .load).2 = .error .notText := by rfl
  refine ⟨?_, ?_, fails, ?_⟩
  · refine (limit_lt_iff_cut "history.txt" 1 brokenFile _).1.mpr
      ⟨[], (oneCommand, .load), _, rfl, ⟨rfl, by rfl, by decide +kernel⟩, ?_⟩
    simp [Unread, trace]
  · have reads : (((oneCommand.call (.add "c")).1.call .save).1.call .load).2 = .ok [] := by rfl
    refine (limit_lt_iff_cut "history.txt" 1 brokenFile _).2.1 fun event mem hload => ?_
    simp only [trace, List.mem_cons, List.not_mem_nil, or_false] at mem
    rcases mem with rfl | rfl | rfl
    · exact nomatch hload
    · exact nomatch hload
    · exact fun cut => nomatch reads.symm.trans cut
  · rcases (limit_lt_iff_cut "history.txt" 1 brokenFile [.add "old"]).2.2 _ fails with
      ⟨h, -⟩ | ⟨-, handle, texts, -, -, left⟩
    · exact nomatch h
    · exact ⟨texts, left⟩

/-- **A load that fails can leave more commands than the limit, and none of those before.**  With
    room for one command the history has the command that was given; the load fails, and the two
    commands of the file's first lines are there instead. -/
theorem limit_exceeded_by_load :
    (oneCommand.run [.add "old"]).history.commands = ["old"] ∧
    ((oneCommand.run [.add "old"]).call .load).2 = .error .notText ∧
    (oneCommand.run [.add "old", .load]).history.commands = ["a", "b"] ∧
    ¬ (oneCommand.run [.add "old", .load]).history.commands.length ≤ 1 := by
  refine ⟨?_, by rfl, ?_, ?_⟩ <;> decide +kernel

end OnDisk

end RecordStore.History
