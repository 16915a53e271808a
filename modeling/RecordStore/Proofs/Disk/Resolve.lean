import RecordStore.Disk

/-! # A path leads to the same file again

    What a path leads to depends on the directories of a disk and, for its last part, on whether
    there is a file of that name.  So a path that has led to a regular file once, or to where one
    was made, leads to that file for as long as the directories stay and the file is there; what
    the file contains, and what other files there are, makes no difference.  Where it leads to no
    file, one can be made, or whatever is to be written there is refused. -/

namespace RecordStore.Disk

open RecordStore.Text

section Resolve

variable {disk disk' : Disk} {making fromRoot slash : Bool} {name path : String}

/-- Which parts lead to a directory depends on the directories alone. -/
theorem isDirectory_congr (dirs : disk'.directories = disk.directories) (parts : List String) :
    disk'.isDirectory fromRoot parts = disk.isDirectory fromRoot parts := by
  rw [isDirectory, isDirectory, dirs]

/-- Where one can stand on a disk, one can on every disk with the same directories. -/
theorem stand_of_ok (dirs : disk'.directories = disk.directories) {here there : List String}
    (h : disk.stand fromRoot here = .ok there) : disk'.stand fromRoot here = .ok there := by
  rw [stand] at h ⊢
  rw [isDirectory_congr dirs]
  by_cases hd : disk.isDirectory fromRoot here = true
  · rwa [if_pos hd] at h ⊢
  · rw [if_neg hd] at h
    split at h <;> exact nomatch h

/-- A walk that succeeds leads to the same place on every disk with the same directories. -/
theorem walk_of_ok (dirs : disk'.directories = disk.directories) {parts here there : List String}
    (h : disk.walk fromRoot here parts = .ok there) :
    disk'.walk fromRoot here parts = .ok there := by
  induction parts generalizing here with
  | nil => exact h
  | cons part parts ih =>
      rw [walk] at h ⊢
      split at h
      · next hdot => rw [if_pos hdot]; exact ih h
      · next hdot =>
        rw [if_neg hdot]
        split at h
        · exact nomatch h
        · next hlen =>
          rw [if_neg hlen]
          cases hs : disk.stand fromRoot (enter fromRoot here part) with
          | error fault =>
              rw [hs] at h
              exact nomatch h
          | ok next =>
              rw [hs] at h
              rw [stand_of_ok dirs hs]
              exact ih h

/-- A last part that led to a file, or to where one can be made, leads to the file once it is
    there. -/
theorem resolveLast_again (dirs : disk'.directories = disk.directories)
    (present : (disk'.contents? name).isSome) {here : List String} {part : String}
    (h : disk.resolveLast making fromRoot slash here part = .ok (.file name) ∨
      disk.resolveLast making fromRoot slash here part = .ok (.absent name)) :
    disk'.resolveLast making fromRoot slash here part = .ok (.file name) := by
  simp only [resolveLast] at h ⊢
  by_cases hdots : (part = "." || part = ".." || (making && slash)) = true
  · rw [if_pos hdots] at h
    rcases h with h | h <;> exact nomatch h
  by_cases hlong : maxPartSize < part.utf8ByteSize
  · rw [if_neg hdots, if_pos hlong] at h
    rcases h with h | h <;> exact nomatch h
  by_cases hdir : disk.isDirectory fromRoot (enter fromRoot here part) = true
  · rw [if_neg hdots, if_neg hlong, if_pos hdir] at h
    rcases h with h | h <;> exact nomatch h
  by_cases hnull : joinName fromRoot (enter fromRoot here part) = nullDevice
  · rw [if_neg hdots, if_neg hlong, if_neg hdir, if_pos hnull] at h
    cases slash <;> rcases h with h | h <;> exact nomatch h
  rw [if_neg hdots, if_neg hlong, if_neg hdir, if_neg hnull] at h
  rw [if_neg hdots, if_neg hlong, isDirectory_congr dirs, if_neg hdir, if_neg hnull]
  -- only the name is left to look at, and whether there is a file of that name
  cases slash with
  | true =>
      split at h <;> rcases h with h | h <;> exact nomatch h
  | false =>
      have hname : joinName fromRoot (enter fromRoot here part) = name := by
        split at h
        · rcases h with h | h <;> cases h
          rfl
        · rcases h with h | h <;> cases h
          rfl
      rw [hname, if_pos present]
      rfl

/-- A path is refused for itself, or it is that of the root, or it leads where its last part leads
    from the directory that the parts before it lead to. -/
theorem resolve_cases (path : String) :
    (∃ fault, ∀ (disk : Disk) making, disk.resolve making path = .error fault) ∨
      (∀ (disk : Disk) making, disk.resolve making path = .ok .directory) ∨
      ∃ fromRoot slash parts last, ∀ (disk : Disk) making, disk.resolve making path =
        disk.walk fromRoot [] parts >>= fun here =>
          disk.resolveLast making fromRoot slash here last := by
  by_cases hzero : path.toList.contains (Char.ofNat 0) = true
  · refine .inl ⟨.zeroInName, fun disk making => ?_⟩
    rw [resolve, if_pos hzero]
    rfl
  by_cases hempty : path.isEmpty = true
  · refine .inl ⟨.notFound, fun disk making => ?_⟩
    simp only [resolve, if_neg hzero, if_pos hempty]
    rfl
  by_cases hlong : maxPathSize < path.utf8ByteSize
  · refine .inl ⟨.nameTooLong, fun disk making => ?_⟩
    simp only [resolve, if_neg hzero, if_neg hempty, if_pos hlong]
    rfl
  cases hlast : ((split '/' path).filter (· != "")).getLast? with
  | none =>
      refine .inr (.inl fun disk making => ?_)
      simp only [resolve, if_neg hzero, if_neg hempty, if_neg hlong, hlast]
      rfl
  | some last =>
      refine .inr (.inr ⟨path.toList.head? == some '/', (split '/' path).getLast? == some "",
        ((split '/' path).filter (· != "")).dropLast, last, fun disk making => ?_⟩)
      simp only [resolve, if_neg hzero, if_neg hempty, if_neg hlong, hlast]

/-- A path that led to a file, or to where one could be made, leads to the file once there is one,
    as long as the directories are the same. -/
theorem resolve_again (dirs : disk'.directories = disk.directories)
    (present : (disk'.contents? name).isSome)
    (h : disk.resolve making path = .ok (.file name) ∨
      disk.resolve making path = .ok (.absent name)) :
    disk'.resolve making path = .ok (.file name) := by
  obtain ⟨fault, refused⟩ | root | ⟨fromRoot, slash, parts, last, leads⟩ := resolve_cases path
  · rw [refused] at h
    rcases h with h | h <;> exact nomatch h
  · rw [root] at h
    rcases h with h | h <;> exact nomatch h
  · rw [leads] at h ⊢
    cases hwalk : disk.walk fromRoot [] parts with
    | error fault =>
        rw [hwalk] at h
        rcases h with h | h <;> exact nomatch h
    | ok here =>
        rw [hwalk] at h
        rw [walk_of_ok dirs hwalk]
        exact resolveLast_again dirs present h

/-- It makes a difference whether a file is to be made only for a path that ends in a slash, which
    is then taken for that of a directory. -/
theorem resolve_making (disk : Disk) (path : String) :
    disk.resolve true path = disk.resolve false path ∨
      disk.resolve true path = .ok .directory := by
  obtain ⟨fault, refused⟩ | root | ⟨fromRoot, slash, parts, last, leads⟩ := resolve_cases path
  · exact .inl ((refused disk true).trans (refused disk false).symm)
  · exact .inl ((root disk true).trans (root disk false).symm)
  · rw [leads, leads]
    cases disk.walk fromRoot [] parts with
    | error fault => exact .inl rfl
    | ok here =>
        cases slash with
        | false => exact .inl rfl
        | true => exact .inr (if_pos (by simp))

theorem directories_setContents (disk : Disk) (name : String) (contents : Bytes) :
    (disk.setContents name contents).directories = disk.directories := by
  rw [setContents]
  split <;> rfl

/-- Where a file is, or can be made, its contents are written. -/
theorem write_eq_setContents (h : disk.resolve true path = .ok (.file name) ∨
      disk.resolve true path = .ok (.absent name)) (contents : Bytes) :
    disk.write path contents = .ok (disk.setContents name contents) := by
  rcases h with h | h <;> · rw [write, h]; rfl

/-- Where no file is, one can be made, or else the path leads to a directory or nowhere. -/
theorem resolve_of_noFile (noFile : ∀ handle, disk.openFile path ≠ .ok (.ok handle)) :
    (∃ name, disk.resolve true path = .ok (.absent name)) ∨
      disk.resolve true path = .ok .directory ∨ ∃ fault, disk.resolve true path = .error fault := by
  rcases resolve_making disk path with same | directory
  · rw [same]
    cases hto : disk.resolve false path with
    | error fault => exact .inr (.inr ⟨fault, rfl⟩)
    | ok target =>
        cases target with
        | absent name => exact .inl ⟨name, rfl⟩
        | directory => exact .inr (.inl rfl)
        | device => exact absurd (by rw [openFile, hto]; rfl) (noFile .device)
        | file name => exact absurd (by rw [openFile, hto]; rfl) (noFile (.file name))
  · exact .inr (.inl directory)

/-- Where no file is, one can be made, or whatever is to be written is refused. -/
theorem makes_or_refuses (noFile : ∀ handle, disk.openFile path ≠ .ok (.ok handle)) :
    (∃ name, disk.resolve true path = .ok (.absent name)) ∨
      (¬ ∃ name, disk.resolve true path = .ok (.absent name)) ∧
        ∀ contents, ∃ fault, disk.write path contents = .error fault := by
  rcases resolve_of_noFile noFile with made | directory | ⟨fault, refused⟩
  · exact .inl made
  · refine .inr ⟨fun ⟨name, made⟩ => ?_, fun contents => ⟨.isDirectory, ?_⟩⟩
    · exact nomatch directory.symm.trans made
    · rw [write, directory]
      rfl
  · refine .inr ⟨fun ⟨name, made⟩ => ?_, fun contents => ⟨fault, ?_⟩⟩
    · exact nomatch refused.symm.trans made
    · rw [write, refused]
      rfl

/-- A path at which a file was written leads to that file. -/
theorem resolve_setContents (h : disk.resolve true path = .ok (.file name) ∨
      disk.resolve true path = .ok (.absent name)) (contents : Bytes) (making : Bool) :
    (disk.setContents name contents).resolve making path = .ok (.file name) := by
  have present : ((disk.setContents name contents).contents? name).isSome := by
    rw [contents?_setContents_self]
    rfl
  cases making with
  | true => exact resolve_again (directories_setContents ..) present h
  | false =>
      refine resolve_again (directories_setContents ..) present ?_
      rcases resolve_making disk path with same | directory
      · rwa [same] at h
      · rw [directory] at h
        rcases h with h | h <;> exact nomatch h

/-- A path opens a file that is there, or one that is made. -/
theorem attach_eq_file {disk₀ : Disk} (h : disk.attach path = .ok (.file name, disk₀)) :
    (disk.resolve true path = .ok (.file name) ∧ disk₀ = disk) ∨
      (disk.resolve true path = .ok (.absent name) ∧ disk₀ = disk.setContents name []) := by
  simp only [attach, bind, Except.bind] at h
  cases hr : disk.resolve true path with
  | error fault =>
      rw [hr] at h
      exact nomatch h
  | ok target =>
      rw [hr] at h
      cases target with
      | directory | device => exact nomatch h
      | file other =>
          cases h
          exact .inl ⟨rfl, rfl⟩
      | absent other =>
          cases h
          exact .inr ⟨rfl, rfl⟩

/-- A path that opened a file leads to the file in every disk that has it, in the same
    directories. -/
theorem attach_again {disk₀ : Disk} (h : disk.attach path = .ok (.file name, disk₀))
    (dirs : disk'.directories = disk₀.directories) (present : (disk'.contents? name).isSome) :
    disk'.attach path = .ok (.file name, disk') := by
  have hresolve : disk'.resolve true path = .ok (.file name) := by
    rcases attach_eq_file h with ⟨hr, rfl⟩ | ⟨hr, rfl⟩
    · exact resolve_again dirs present (.inl hr)
    · exact resolve_again (dirs.trans (directories_setContents ..)) present (.inr hr)
  simp only [attach, bind, Except.bind, hresolve]
  rfl

/-- Other contents in an open file: the path still leads to it. -/
theorem attach_replace {disk₀ : Disk} {contents : Bytes}
    (h : disk.attach path = .ok (.file name, disk₀))
    (replaced : disk₀.replace contents (.file name) = .ok disk') :
    disk'.attach path = .ok (.file name, disk') := by
  cases replaced
  refine attach_again h (directories_setContents ..) ?_
  rw [contents?_setContents_self]
  rfl

/-- A file that was made when its path was opened is there when the path is opened again. -/
theorem attach_attach {disk₀ : Disk} (h : disk.attach path = .ok (.file name, disk₀)) :
    disk₀.attach path = .ok (.file name, disk₀) := by
  rcases attach_eq_file h with ⟨-, rfl⟩ | ⟨-, rfl⟩
  · exact h
  · refine attach_again h rfl ?_
    rw [contents?_setContents_self]
    rfl

end Resolve

end RecordStore.Disk
