import BitMachine.CommandLine.Directory
import BitMachine.CommandLine.Path
import BitMachine.Proofs.Results
import Mathlib.Data.List.Basic
import Mathlib.Tactic.Common

namespace BitMachine

/-!
# Files and their names

What a written file changes in a directory, and why a file with one extension is never written
over one with another:

* `IsFileName` — the last component of a path that leads to a file;
* `Path.extension?_withExtension` — a path that was given an extension has it, unless it has none;
* `Directory.extension?_key` — a file is kept under a key with the extension of its path, so paths
  with different extensions lead to different files;
* `Directory.read_of_write`, `Directory.read_of_write_cases` — a written file is read back, and
  every file with another extension is as it was.
-/

/-! ### Paths -/

namespace Path

/-- A last component that is the name of a file: not empty, and no name for a directory. -/
structure IsFileName (name : List Char) : Prop where
  /-- It is one component. -/
  no_slash : '/' ∉ name
  /-- It is not empty. -/
  ne_nil : name ≠ []
  /-- It is not the same directory. -/
  ne_dot : name ≠ ['.']
  /-- It is not the parent directory. -/
  ne_dots : name ≠ ['.', '.']

/-- What can stand before the last component: nothing, or a path with its slash. -/
def IsParent (parent : List Char) : Prop :=
  parent = [] ∨ ∃ path, parent = path ++ ['/']

theorem takeWhile_no_slash {name : List Char} (h : '/' ∉ name) {parent : List Char}
    (hparent : IsParent parent) :
    ((parent ++ name).reverse.takeWhile (· != '/')).reverse = name := by
  have hall : ∀ c ∈ name.reverse, (c != '/') = true := by
    intro c hc
    rw [bne_iff_ne]
    rintro rfl
    exact h (List.mem_reverse.mp hc)
  rw [List.reverse_append, List.takeWhile_append_of_pos hall]
  rcases hparent with rfl | ⟨path, rfl⟩
  · simp
  · simp

theorem splitLast_append {name parent : List Char} (h : '/' ∉ name) (hparent : IsParent parent) :
    splitLast (parent ++ name) = (parent, name) := by
  unfold splitLast
  simp only [takeWhile_no_slash h hparent]
  simp

/-- Every path has a last component. -/
theorem exists_last (cs : List Char) : ∃ parent name, IsParent parent ∧ '/' ∉ name ∧
    cs = parent ++ name := by
  induction cs with
  | nil => exact ⟨[], [], .inl rfl, List.not_mem_nil, rfl⟩
  | cons c cs ih =>
    obtain ⟨parent, name, hparent, hname, rfl⟩ := ih
    -- A further character in front belongs to the last component if no slash has been met.
    rcases hparent with rfl | ⟨path, rfl⟩
    · by_cases hc : c = '/'
      · exact ⟨[c], name, .inr ⟨[], by rw [hc]; rfl⟩, hname, rfl⟩
      · exact ⟨[], c :: name, .inl rfl, by simp [hname, Ne.symm hc], rfl⟩
    · exact ⟨c :: (path ++ ['/']), name, .inr ⟨c :: path, rfl⟩, hname, rfl⟩

/-- Nothing is trimmed from the name of a file. -/
theorem IsFileName.trimTail_eq {name : List Char} (h : IsFileName name) (parent : List Char) :
    trimTail (parent ++ name) = parent ++ name := by
  have hback : trimTail.dropTail (name.reverse ++ parent.reverse)
      = name.reverse ++ parent.reverse := by
    have hmem {c : Char} {rest : List Char} (hrev : name.reverse = c :: rest) : c ∈ name := by
      rw [← List.mem_reverse, hrev]
      exact List.mem_cons_self
    -- Only the last two characters are looked at, and they belong to the name.
    rcases hrev : name.reverse with _ | ⟨c, _ | ⟨d, rest⟩⟩
    · exact absurd (List.reverse_eq_nil_iff.mp hrev) h.ne_nil
    · have hname : name = [c] := by simpa using congrArg List.reverse hrev
      have hslash : c ≠ '/' := fun hc => h.no_slash (hc ▸ hmem hrev)
      have hdot : c ≠ '.' := fun hc => h.ne_dot (hc ▸ hname)
      simp [trimTail.dropTail, hslash, hdot]
    · have hslash : c ≠ '/' := fun hc => h.no_slash (hc ▸ hmem hrev)
      have hsecond : d ≠ '/' := by
        rintro rfl
        refine h.no_slash (List.mem_reverse.mp ?_)
        simp [hrev]
      simp [trimTail.dropTail, hslash, hsecond]
  rw [trimTail, List.reverse_append, hback, List.reverse_append, List.reverse_reverse,
    List.reverse_reverse]

theorem IsFileName.fileName?_eq {name parent : List Char} (h : IsFileName name)
    (hparent : IsParent parent) : fileName? (parent ++ name) = some name := by
  unfold fileName?
  rw [h.trimTail_eq parent, splitLast_append h.no_slash hparent]
  simp [h.ne_nil, h.ne_dot, h.ne_dots]

theorem exists_of_fileName? {cs name : List Char} (h : fileName? cs = some name) :
    ∃ parent, IsParent parent ∧ trimTail cs = parent ++ name ∧ IsFileName name := by
  obtain ⟨parent, last, hparent, hslash, hsplit⟩ := exists_last (trimTail cs)
  unfold fileName? at h
  rw [hsplit, splitLast_append hslash hparent] at h
  dsimp only at h
  split_ifs at h with hnone
  obtain rfl : last = name := Option.some.inj h
  simp only [Bool.or_eq_true, decide_eq_true_eq, not_or] at hnone
  obtain ⟨⟨hnil, hdot⟩, hdots⟩ := hnone
  exact ⟨parent, hparent, hsplit, hslash, hnil, hdot, hdots⟩

theorem IsFileName.extension?_eq {name parent : List Char} (h : IsFileName name)
    (hparent : IsParent parent) {path : String} (hpath : path.toList = parent ++ name) :
    extension? path = (splitExtension name).2.map String.ofList := by
  unfold extension?
  rw [hpath, h.fileName?_eq hparent]
  rfl

/-- The parts before and after the last dot of a name. -/
theorem splitExtension_append {stem extension : List Char} (hstem : stem ≠ [])
    (h : '.' ∉ extension) : splitExtension (stem ++ '.' :: extension) = (stem, some extension) := by
  have hafter : ((stem ++ '.' :: extension).reverse.takeWhile (· != '.')).reverse = extension := by
    have hall : ∀ c ∈ extension.reverse, (c != '.') = true := by
      intro c hc
      rw [bne_iff_ne]
      rintro rfl
      exact h (List.mem_reverse.mp hc)
    rw [List.reverse_append, List.reverse_cons, List.append_assoc,
      List.takeWhile_append_of_pos hall]
    simp
  have htake : (stem ++ '.' :: extension).length - extension.length - 1 = stem.length := by
    simp
    omega
  unfold splitExtension
  simp only [hafter, htake, List.take_left]
  simp [hstem]
  omega

theorem stem_ne_nil {name : List Char} (h : name ≠ []) : (splitExtension name).1 ≠ [] := by
  unfold splitExtension
  dsimp only
  split_ifs with hdot
  · rw [Bool.and_eq_true] at hdot
    simpa using hdot.2
  · exact h

theorem mem_stem {name : List Char} {c : Char} (h : c ∈ (splitExtension name).1) : c ∈ name := by
  unfold splitExtension at h
  dsimp only at h
  split_ifs at h
  · exact List.mem_of_mem_take h
  · exact h

theorem isFileName_append {stem extension : List Char} (hstem : stem ≠ []) (hslash : '/' ∉ stem)
    (hne : extension ≠ []) (hslash' : '/' ∉ extension) :
    IsFileName (stem ++ '.' :: extension) := by
  have hlength : 3 ≤ (stem ++ '.' :: extension).length := by
    have h1 := List.length_pos_iff.mpr hstem
    have h2 := List.length_pos_iff.mpr hne
    simp only [List.length_append, List.length_cons]
    omega
  refine ⟨by simp [hslash, hslash'], ?_, ?_, ?_⟩
  all_goals
    intro heq
    rw [heq] at hlength
    simp at hlength

/-- **A path that was given an extension has it**, or leads to no file at all. -/
theorem extension?_withExtension (path : String) {extension : String}
    (hdot : '.' ∉ extension.toList) (hslash : '/' ∉ extension.toList)
    (hne : extension.toList ≠ []) :
    extension? (withExtension path extension) = none ∨
      extension? (withExtension path extension) = some extension := by
  unfold withExtension setExtension
  dsimp only
  generalize path.toList.take _ = cs
  split
  next hnone =>
    left
    unfold extension?
    rw [String.toList_ofList, hnone]
    rfl
  next name hname =>
    obtain ⟨parent, hparent, htrim, hfile⟩ := exists_of_fileName? hname
    have hstem := stem_ne_nil hfile.ne_nil
    have hnew : IsFileName ((splitExtension name).1 ++ '.' :: extension.toList) :=
      isFileName_append hstem (fun hmem => hfile.no_slash (mem_stem hmem)) hne hslash
    right
    rw [htrim, splitLast_append hfile.no_slash hparent,
      hnew.extension?_eq hparent (by simp), splitExtension_append hstem hdot]
    simp

end Path

/-! ### What a path leads to -/

namespace Directory

open BitMachine.Path

variable {d d' : Directory} {path name key : String} {content : List UInt8}

/-- A path that leads somewhere ends with the name there. -/
theorem getLast?_of_follow {here : Bool} {names : List String}
    (h : d.follow path here names = .ok (.entry name key)) :
    names.getLast? = some name ∧ name ≠ "." ∧ name ≠ ".." ∧ (key = name ∨ key = path) := by
  induction names generalizing here with
  | nil => cases h
  | cons first rest ih =>
    have hlast (hrest : rest.getLast? = some name) : (first :: rest).getLast? = some name := by
      rw [List.getLast?_cons, hrest]
      rfl
    unfold follow at h
    -- Names of directories are followed; the name of a file has to be the last one.
    split_ifs at h with hdot hdots hempty hhere
    · exact (ih h).imp_left hlast
    · exact (ih h).imp_left hlast
    · cases h
      exact ⟨by simp [List.isEmpty_iff.mp hempty], hdot, hdots, .inl rfl⟩
    · cases h
      exact ⟨by simp [List.isEmpty_iff.mp hempty], hdot, hdots, .inr rfl⟩

/-- Where a path leads does not depend on the files. -/
theorem follow_eq_ok {here : Bool} {names : List String} {place : Place}
    (h : d.follow path here names = .ok place) : d'.follow path here names = .ok place := by
  induction names generalizing here with
  | nil => exact h
  | cons first rest ih =>
    unfold follow at h ⊢
    split_ifs at h ⊢ with hdot hdots hempty
    · exact ih h
    · exact ih h
    · exact h
    · exact h

theorem resolve_eq_ok {place : Place} (h : d.resolve path = .ok place) :
    d'.resolve path = .ok place := by
  unfold resolve at h ⊢
  split_ifs at h ⊢
  exact follow_eq_ok h

theorem getLast?_names {parent last : List Char} (hparent : IsParent parent) (hslash : '/' ∉ last)
    (hne : last ≠ []) (hpath : path.toList = parent ++ last) :
    (names path).getLast? = some (String.ofList last) := by
  have hlast : last.splitOn '/' = [last] := by
    refine List.splitOnP_eq_singleton fun c hc => ?_
    rw [beq_eq_false_iff_ne]
    rintro rfl
    exact hslash hc
  have hsplit : ∃ before, path.toList.splitOn '/' = before ++ [last] := by
    rw [hpath]
    rcases hparent with rfl | ⟨dir, rfl⟩
    · exact ⟨[], hlast⟩
    · refine ⟨dir.splitOn '/', ?_⟩
      rw [List.append_assoc, List.singleton_append, List.splitOn,
        List.splitOnP_append_cons dir last (by simp), ← List.splitOn, ← List.splitOn, hlast]
  obtain ⟨before, hbefore⟩ := hsplit
  simp [names, hbefore, hne]

/-- A path to a file ends with the name that it leads to. -/
theorem exists_of_resolve (h : d.resolve path = .ok (.entry name key))
    (hfile : asksForDirectory path = false) :
    ∃ parent, IsParent parent ∧ path.toList = parent ++ name.toList ∧ IsFileName name.toList ∧
      (key = name ∨ key = path) := by
  unfold resolve at h
  split_ifs at h with hempty hlong
  obtain ⟨hlast, hdot, hdots, hkey⟩ := getLast?_of_follow h
  obtain ⟨parent, last, hparent, hslash, hpath⟩ := exists_last path.toList
  -- Only an empty path and one with a slash at its end have an empty last component.
  have hne : last ≠ [] := by
    rintro rfl
    rcases hparent with rfl | ⟨dir, rfl⟩
    · exact hempty (by simpa using hpath)
    · simp [asksForDirectory, hpath] at hfile
  rw [getLast?_names hparent hslash hne hpath] at hlast
  obtain rfl : String.ofList last = name := Option.some.inj hlast
  rw [String.toList_ofList]
  refine ⟨parent, hparent, hpath, ⟨hslash, hne, ?_, ?_⟩, hkey⟩
  · rintro rfl
    exact hdot rfl
  · rintro rfl
    exact hdots rfl

/-- **A file is kept under a key with the extension of its path.** -/
theorem extension?_key (h : d.resolve path = .ok (.entry name key))
    (hfile : asksForDirectory path = false) : extension? key = extension? path := by
  obtain ⟨parent, hparent, hpath, hname, rfl | rfl⟩ := exists_of_resolve h hfile
  · rw [hname.extension?_eq hparent hpath, hname.extension?_eq (.inl rfl) (List.nil_append _).symm]
  · rfl

/-! ### Reading and writing -/

/-- A file that is left out is not the one that is looked up. -/
theorem lookup_filter_ne {files : List (String × List UInt8)} {key other : String}
    (h : other ≠ key) : (files.filter (·.1 ≠ key)).lookup other = files.lookup other := by
  induction files with
  | nil => rfl
  | cons file files ih =>
    by_cases hkept : file.1 = key
    · have hskip : (other == file.1) = false := by simpa [hkept] using h
      rw [List.filter_cons, if_neg (by simpa using hkept), ih, List.lookup_cons, hskip]
    · rw [List.filter_cons, if_pos (by simpa using hkept), List.lookup_cons, List.lookup_cons, ih]

theorem content?_insert (d : Directory) (key other : String) (content : List UInt8) :
    (d.insert key content).content? other
      = if other = key then some content else d.content? other := by
  unfold insert content?
  by_cases hother : other = key
  · rw [if_pos hother, hother, List.lookup_cons_self]
  · rw [if_neg hother, List.lookup_cons, beq_eq_false_iff_ne.mpr hother]
    exact lookup_filter_ne hother

/-- A file is read if its path leads to it and does not ask for a directory. -/
theorem read_eq_ok_iff : d.read path = .ok content ↔
    ∃ name key, d.resolve path = .ok (.entry name key) ∧ asksForDirectory path = false ∧
      d.content? key = some content := by
  unfold read
  rw [bind_eq_ok]
  constructor
  · rintro ⟨_ | ⟨name, key⟩, hresolve, h⟩
    · cases h
    · refine ⟨name, key, hresolve, ?_⟩
      dsimp only at h
      split at h
      · cases h
      next old hcontent =>
        split_ifs at h with hfile
        cases h
        exact ⟨by simpa using hfile, hcontent⟩
  · rintro ⟨name, key, hresolve, hfile, hcontent⟩
    refine ⟨.entry name key, hresolve, ?_⟩
    simp only [hcontent, hfile]
    rfl

/-- A file is written if its path leads to a name that is not too long. -/
theorem write_eq_ok_iff : d.write path content = .ok d' ↔
    ∃ name key, d.resolve path = .ok (.entry name key) ∧ asksForDirectory path = false ∧
      isTooLong name = false ∧ d' = d.insert key content := by
  unfold write
  rw [bind_eq_ok]
  constructor
  · rintro ⟨_ | ⟨name, key⟩, hresolve, h⟩
    · cases h
    · refine ⟨name, key, hresolve, ?_⟩
      dsimp only at h
      split_ifs at h with hfile hlong
      cases h
      exact ⟨by simpa using hfile, by simpa using hlong, rfl⟩
  · rintro ⟨name, key, hresolve, hfile, hlong, rfl⟩
    refine ⟨.entry name key, hresolve, ?_⟩
    simp only [hfile, hlong]
    rfl

/-- **A written file is read back.** -/
theorem read_of_write (h : d.write path content = .ok d') : d'.read path = .ok content := by
  obtain ⟨name, key, hresolve, hfile, -, rfl⟩ := write_eq_ok_iff.mp h
  refine read_eq_ok_iff.mpr ⟨name, key, resolve_eq_ok hresolve, hfile, ?_⟩
  rw [content?_insert, if_pos rfl]

/-- **What is read after a write** is what was there before, or, from a path with the same
    extension, what was written. -/
theorem read_of_write_cases {other : String} {old : List UInt8}
    (h : d.write path content = .ok d') (hread : d.read other = .ok old) :
    d'.read other = .ok old ∨
      (extension? other = extension? path ∧ d'.read other = .ok content) := by
  obtain ⟨name, key, hresolve, hfile, -, rfl⟩ := write_eq_ok_iff.mp h
  obtain ⟨name', key', hresolve', hfile', hold⟩ := read_eq_ok_iff.mp hread
  have hreads {now : List UInt8} (hnow : (d.insert key content).content? key' = some now) :
      (d.insert key content).read other = .ok now :=
    read_eq_ok_iff.mpr ⟨name', key', resolve_eq_ok hresolve', hfile', hnow⟩
  by_cases hkey : key' = key
  · right
    constructor
    · rw [← extension?_key hresolve' hfile', hkey, extension?_key hresolve hfile]
    · exact hreads (by rw [content?_insert, if_pos hkey])
  · left
    exact hreads (by rw [content?_insert, if_neg hkey, hold])

end Directory

end BitMachine
