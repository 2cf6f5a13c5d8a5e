import OssTest.Cpp.Text

/-!
# Files and directories

A file system says what stands at each place, a place being the names that lead there
from the root.  A path is walked name by name: every name but the last has to be that of
a directory, `"."` and `".."` are understood, and empty names are skipped.  A path and its
names can be too long.

* `FileSystem.mkdir` makes a directory where there is nothing yet, if the place above is
  a directory.
* `Extends` — what `mkdir` can do to a file system: add directories.  What a path leads
  to stays (`typeOf_of_extends`), and so does the chance of making a directory
  (`Available.of_extends`).
* `locate_child` — where a name behind a path leads: into the directory, if there is one.
-/

namespace Posix

open Cpp

/-- What can stand at a place. -/
inductive FileType where
  | fifo
  | chr
  | dir
  | blk
  | reg
  /-- A symbolic link that leads nowhere. -/
  | lnk
  | sock
  deriving DecidableEq, Repr

/-- The file type in `st_mode`, as on Linux. -/
def FileType.stMode : FileType → ℕ
  | .fifo => 0o010000
  | .chr => 0o020000
  | .dir => 0o040000
  | .blk => 0o060000
  | .reg => 0o100000
  | .lnk => 0o120000
  | .sock => 0o140000

/-- `S_IFDIR` -/
def sIfdir : ℕ := 0o040000

/-- **`S_IFDIR` is not a bit of its own**: block devices and sockets have it as well. -/
theorem stMode_and_sIfdir {t : FileType} :
    t.stMode &&& sIfdir ≠ 0 ↔ t = .dir ∨ t = .blk ∨ t = .sock := by
  cases t <;> decide

/-- `NAME_MAX`: the bytes a name has at most. -/
def nameMax : ℕ := 255

/-- `PATH_MAX`: a path has fewer bytes. -/
def pathMax : ℕ := 4096

/-- What stands where, and the directory relative paths start from. -/
structure FileSystem where
  node : List Text → Option FileType
  cwd : List Text
  /-- Things stand in directories. -/
  parent_dir : ∀ p x, node (p ++ [x]) ≠ none → node p = some .dir

namespace FileSystem

/-- A file system with one thing in its root, which is the working directory. -/
def single (name : Text) (t : FileType) : FileSystem where
  node p := if p = [] then some .dir else if p = [name] then some t else none
  cwd := []
  parent_dir := by
    intro p x hp
    rw [if_neg (by simp)] at hp
    split at hp
    · rename_i heq
      rcases List.append_eq_singleton_iff.1 heq with ⟨rfl, -⟩ | ⟨-, hx⟩
      · rfl
      · cases hx
    · exact absurd rfl hp

variable (fs : FileSystem)

/-- Where a name leads from a directory. -/
def enter (here : List Text) (name : Text) : List Text :=
  if name = ".".toList then here
  else if name = "..".toList then here.dropLast
  else here ++ [name]

/-- Where the names lead; all places on the way have to be directories, and no name may be
too long. -/
def walk : List Text → List Text → Option (List Text)
  | here, [] => some here
  | here, name :: names =>
      if fs.node here = some .dir ∧ name.length ≤ nameMax then walk (enter here name) names
      else none

/-- The place a path leads to. -/
def locate (path : Text) : Option (List Text) :=
  if path = [] ∨ pathMax ≤ path.length then none
  else
    fs.walk (if path.head? = some '/' then [] else fs.cwd)
      ((path.splitOn '/').filter fun name => name ≠ [])

/-- What a path leads to; a trailing `'/'` demands a directory. -/
def typeOf (path : Text) : Option FileType :=
  ((fs.locate path).bind fs.node).filter fun t => path.getLast? = some '/' → t = .dir

/-- The path leads to a directory. -/
def IsDirectory (path : Text) : Prop := fs.typeOf path = some .dir

instance (path : Text) : Decidable (fs.IsDirectory path) :=
  inferInstanceAs (Decidable (fs.typeOf path = some .dir))

/-- `stat(path, &info)`: the `st_mode` it stores, if it succeeds. -/
def stat (path : Text) : Option ℕ :=
  (fs.typeOf path).bind fun t => if t = .lnk then none else some t.stMode

/-- The file system with a new directory. -/
def addDir (p : List Text) (hparent : fs.node p.dropLast = some .dir) : FileSystem where
  node q := if q = p then some .dir else fs.node q
  cwd := fs.cwd
  parent_dir := by
    intro q x hq
    split
    · rfl
    · split at hq
      · rename_i heq
        rwa [← heq, List.dropLast_concat] at hparent
      · exact fs.parent_dir q x hq

/-- `mkdir(path, mode)`: the file system afterwards, if it succeeds. -/
def mkdir (path : Text) : Option FileSystem :=
  match fs.locate path with
  | none => none
  | some p =>
      if h : fs.node p = none ∧ fs.node p.dropLast = some .dir then some (fs.addDir p h.2)
      else none

/-- There is a directory at the path, or it can be made. -/
def Available (path : Text) : Prop := fs.IsDirectory path ∨ fs.mkdir path ≠ none

/-- Only directories have been added. -/
structure Extends (fs fs' : FileSystem) : Prop where
  cwd : fs'.cwd = fs.cwd
  node : ∀ p, fs'.node p = fs.node p ∨ (fs.node p = none ∧ fs'.node p = some .dir)

variable {fs} {fs' : FileSystem} {path : Text}

theorem Extends.refl (fs : FileSystem) : fs.Extends fs := ⟨rfl, fun _ => Or.inl rfl⟩

theorem Extends.trans {fs'' : FileSystem} (h : fs.Extends fs') (h' : fs'.Extends fs'') :
    fs.Extends fs'' := by
  refine ⟨h'.cwd.trans h.cwd, fun p => ?_⟩
  rcases h.node p with hp | ⟨hnone, hdir⟩
  · rw [← hp]
    exact h'.node p
  · rcases h'.node p with hp' | ⟨hnone', -⟩
    · exact Or.inr ⟨hnone, hp'.trans hdir⟩
    · rw [hdir] at hnone'
      cases hnone'

/-- What was there stays. -/
theorem Extends.node_eq (h : fs.Extends fs') {p : List Text} {t : FileType}
    (hp : fs.node p = some t) : fs'.node p = some t := by
  rcases h.node p with hp' | ⟨hnone, -⟩
  · exact hp'.trans hp
  · rw [hp] at hnone
    cases hnone

theorem Extends.walk_eq (h : fs.Extends fs') {here p : List Text} {names : List Text}
    (hwalk : fs.walk here names = some p) : fs'.walk here names = some p := by
  induction names generalizing here with
  | nil => exact hwalk
  | cons name names ih =>
    rw [walk] at hwalk ⊢
    split at hwalk
    · rename_i hgo
      rw [if_pos ⟨h.node_eq hgo.1, hgo.2⟩]
      exact ih hwalk
    · cases hwalk

/-- A path goes on leading where it led. -/
theorem Extends.locate_eq (h : fs.Extends fs') {p : List Text}
    (hloc : fs.locate path = some p) : fs'.locate path = some p := by
  rw [locate] at hloc ⊢
  split at hloc
  · cases hloc
  · rename_i hok
    rw [if_neg hok, h.cwd]
    exact h.walk_eq hloc

theorem typeOf_eq_some_iff {t : FileType} :
    fs.typeOf path = some t ↔ ∃ p, fs.locate path = some p ∧ fs.node p = some t ∧
      (path.getLast? = some '/' → t = .dir) := by
  rw [typeOf, Option.filter_eq_some_iff, Option.bind_eq_some_iff]
  simp only [decide_eq_true_eq]
  constructor
  · rintro ⟨⟨p, hloc, hnode⟩, hslash⟩
    exact ⟨p, hloc, hnode, hslash⟩
  · rintro ⟨p, hloc, hnode, hslash⟩
    exact ⟨⟨p, hloc, hnode⟩, hslash⟩

/-- **What a path leads to stays.** -/
theorem typeOf_of_extends (h : fs.Extends fs') {t : FileType} (ht : fs.typeOf path = some t) :
    fs'.typeOf path = some t := by
  obtain ⟨p, hloc, hnode, hslash⟩ := typeOf_eq_some_iff.1 ht
  exact typeOf_eq_some_iff.2 ⟨p, h.locate_eq hloc, h.node_eq hnode, hslash⟩

/-- What `mkdir` does, when it succeeds. -/
theorem mkdir_eq_some_iff :
    fs.mkdir path = some fs' ↔ ∃ p, ∃ hparent : fs.node p.dropLast = some .dir,
      fs.locate path = some p ∧ fs.node p = none ∧ fs' = fs.addDir p hparent := by
  rw [mkdir]
  cases hloc : fs.locate path with
  | none => simp
  | some p =>
    dsimp only
    split
    · rename_i hp
      constructor
      · rintro ⟨⟩
        exact ⟨p, hp.2, rfl, hp.1, rfl⟩
      · rintro ⟨q, hparent, hq, -, rfl⟩
        cases hq
        rfl
    · rename_i hp
      refine iff_of_false nofun ?_
      rintro ⟨q, hparent, hq, hnew, -⟩
      cases hq
      exact hp ⟨hnew, hparent⟩

theorem extends_addDir {p : List Text} (hnew : fs.node p = none)
    (hparent : fs.node p.dropLast = some .dir) : fs.Extends (fs.addDir p hparent) := by
  refine ⟨rfl, ?_⟩
  intro q
  by_cases hq : q = p
  · exact Or.inr ⟨hq ▸ hnew, if_pos hq⟩
  · exact Or.inl (if_neg hq)

theorem extends_mkdir (h : fs.mkdir path = some fs') : fs.Extends fs' := by
  obtain ⟨p, hparent, -, hnew, rfl⟩ := mkdir_eq_some_iff.1 h
  exact extends_addDir hnew hparent

/-- **`mkdir` makes the directory.** -/
theorem isDirectory_mkdir (h : fs.mkdir path = some fs') : fs'.IsDirectory path := by
  have hext := extends_mkdir h
  obtain ⟨p, hparent, hloc, -, rfl⟩ := mkdir_eq_some_iff.1 h
  exact typeOf_eq_some_iff.2 ⟨p, hext.locate_eq hloc, if_pos rfl, fun _ => rfl⟩

/-- **A directory that could be made is there, or still can be made.** -/
theorem Available.of_extends (hext : fs.Extends fs') (h : fs.Available path) :
    fs'.Available path := by
  rcases h with hdir | hmk
  · exact Or.inl (typeOf_of_extends hext hdir)
  · obtain ⟨fs₁, hmk⟩ := Option.ne_none_iff_exists'.1 hmk
    obtain ⟨p, hparent, hloc, hnew, -⟩ := mkdir_eq_some_iff.1 hmk
    rcases hext.node p with hp | ⟨-, hdir⟩
    · have hparent' := hext.node_eq hparent
      have hmk' : fs'.mkdir path = some (fs'.addDir p hparent') :=
        mkdir_eq_some_iff.2 ⟨p, hparent', hext.locate_eq hloc, hp.trans hnew, rfl⟩
      exact Or.inr (by simp [hmk'])
    · exact Or.inl (typeOf_eq_some_iff.2 ⟨p, hext.locate_eq hloc, hdir, fun _ => rfl⟩)

/-- Whether `mkdir` succeeds or not, an available directory is there afterwards. -/
theorem Available.isDirectory_mkdir (h : fs.Available path) :
    ((fs.mkdir path).getD fs).IsDirectory path := by
  cases hmk : fs.mkdir path with
  | none => exact h.resolve_right (not_not.2 hmk)
  | some fs' => exact FileSystem.isDirectory_mkdir hmk

theorem extends_mkdir_getD (fs : FileSystem) (path : Text) :
    fs.Extends ((fs.mkdir path).getD fs) := by
  cases hmk : fs.mkdir path with
  | none => exact Extends.refl fs
  | some fs' => exact extends_mkdir hmk

/-! ## Names in a directory -/

/-- A name that leads into the directory it is looked up in. -/
structure Plain (name : Text) : Prop where
  ne_nil : name ≠ []
  ne_dot : name ≠ ".".toList
  ne_dotdot : name ≠ "..".toList
  no_slash : '/' ∉ name
  fits : name.length ≤ nameMax

/-- A new file can be made at the path, as `fopen(path, "w")` does. -/
def Creatable (fs : FileSystem) (path : Text) : Prop :=
  ∃ p, fs.locate path = some p ∧ fs.node p = none ∧ fs.node p.dropLast = some .dir ∧
    path.getLast? ≠ some '/'

theorem Plain.getLast?_ne {name : Text} (h : Plain name) (d : Text) :
    (d ++ '/' :: name).getLast? ≠ some '/' := by
  rw [List.getLast?_append_of_ne_nil _ (List.cons_ne_nil _ _),
    List.getLast?_cons_of_ne_nil h.ne_nil]
  intro hlast
  exact h.no_slash (List.mem_of_getLast? hlast)

theorem isDirectory_iff :
    fs.IsDirectory path ↔ ∃ p, fs.locate path = some p ∧ fs.node p = some .dir := by
  rw [IsDirectory, typeOf_eq_some_iff]
  simp

theorem Plain.enter {name : Text} (h : Plain name) (here : List Text) :
    FileSystem.enter here name = here ++ [name] := by
  rw [FileSystem.enter, if_neg h.ne_dot, if_neg h.ne_dotdot]

theorem walk_concat {here names : List Text} {name : Text} (hname : Plain name) :
    fs.walk here (names ++ [name]) =
      ((fs.walk here names).filter fun p => fs.node p = some .dir).map (· ++ [name]) := by
  induction names generalizing here with
  | nil =>
    by_cases hdir : fs.node here = some .dir
    · simp [walk, hdir, hname.enter, hname.fits]
    · simp [walk, hdir]
  | cons x xs ih =>
    rw [List.cons_append, walk, walk]
    split
    · exact ih
    · rfl

/-- The names of a path with one more behind it. -/
theorem names_child {d name : Text} (hne : name ≠ []) (hslash : '/' ∉ name) :
    ((d ++ '/' :: name).splitOn '/').filter (fun x => x ≠ []) =
      (d.splitOn '/').filter (fun x => x ≠ []) ++ [name] := by
  rw [List.splitOn_append_cons_self, List.splitOn_eq_singleton hslash, List.filter_append]
  simp [hne]

/-- **Where a name behind a path leads**: into the directory, if the path leads to one. -/
theorem locate_child {d name : Text} (hd : d ≠ []) (hname : Plain name)
    (hlen : (d ++ '/' :: name).length < pathMax) :
    fs.locate (d ++ '/' :: name) =
      ((fs.locate d).filter fun p => fs.node p = some .dir).map (· ++ [name]) := by
  have hok : ¬ (d ++ '/' :: name = [] ∨ pathMax ≤ (d ++ '/' :: name).length) :=
    not_or.2 ⟨List.append_ne_nil_of_left_ne_nil hd _, by omega⟩
  have hdok : ¬ (d = [] ∨ pathMax ≤ d.length) := by
    rw [List.length_append] at hlen
    exact not_or.2 ⟨hd, by omega⟩
  have hhead : (d ++ '/' :: name).head? = d.head? := List.head?_append_of_ne_nil _ hd
  rw [locate, locate, if_neg hok, if_neg hdok, hhead, names_child hname.ne_nil hname.no_slash,
    walk_concat hname]

theorem length_lt_of_locate {p : List Text} (h : fs.locate path = some p) :
    path.length < pathMax := by
  rw [locate] at h
  split at h
  · cases h
  · omega

theorem walk_concat_long {here names : List Text} {name : Text} (hlong : nameMax < name.length) :
    fs.walk here (names ++ [name]) = none := by
  induction names generalizing here with
  | nil => rw [List.nil_append, walk, if_neg (by omega)]
  | cons x xs ih =>
    rw [List.cons_append, walk]
    split
    · exact ih
    · rfl

/-- A name that is too long leads nowhere. -/
theorem locate_child_long {d name : Text} (hslash : '/' ∉ name) (hlong : nameMax < name.length) :
    fs.locate (d ++ '/' :: name) = none := by
  have hne : name ≠ [] := by
    rintro rfl
    exact absurd hlong (Nat.not_lt_zero _)
  rw [locate, names_child hne hslash, walk_concat_long hlong, ite_self]

/-- A directory leads to what is in it. -/
theorem locate_child_of_isDirectory {d : Text} (hd : d ≠ []) (hdir : fs.IsDirectory d) :
    ∃ q, fs.locate d = some q ∧ fs.node q = some .dir ∧
      ∀ {name}, Plain name → (d ++ '/' :: name).length < pathMax →
        fs.locate (d ++ '/' :: name) = some (q ++ [name]) := by
  obtain ⟨q, hq, hnode⟩ := isDirectory_iff.1 hdir
  refine ⟨q, hq, hnode, fun {name} hname hlen => ?_⟩
  rw [locate_child hd hname hlen, hq]
  simp [hnode]

/-- What is in a directory has a directory around it. -/
theorem isDirectory_of_locate_child {d name : Text} {p : List Text} (hd : d ≠ [])
    (hname : Plain name) (h : fs.locate (d ++ '/' :: name) = some p) : fs.IsDirectory d := by
  rw [locate_child hd hname (length_lt_of_locate h)] at h
  obtain ⟨q, hq, -⟩ := Option.map_eq_some_iff.1 h
  obtain ⟨hloc, hnode⟩ := Option.filter_eq_some_iff.1 hq
  exact isDirectory_iff.2 ⟨q, hloc, of_decide_eq_true hnode⟩

end FileSystem

end Posix
