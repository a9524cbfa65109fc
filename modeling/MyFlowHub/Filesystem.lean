/-
A file system below one directory.

A path is the list of its names from that directory on, and `[]` the directory itself.
Files are numbered; an entry refers to a file by its number, an open handle too, so that a
file keeps its contents when its entry is renamed or removed.

* `FS` — the entries and the contents, every file under one path only;
* `mkdir`, `create`, `remove`, `rename`, `writeAt`, `readAt` — each fails when its `fault`
  says so, and changes nothing then, except that a write may have stored a part of its data;
* `…_eq_ok` — what is found after an operation;
* `Touches` — only one file is changed, moved or removed.
-/
import MyFlowHub.Enrollment
import MyFlowHub.Roster

open List Function


namespace Filesystem

open Roster

abbrev Path := List String

inductive Entry where
  | dir
  | symlink
  | file (inode : ℕ)
  deriving DecidableEq, Repr

structure Node where
  path : Path
  entry : Entry

/-- `os.ErrNotExist`, or another error with its text. -/
inductive Errno where
  | notExist
  | other (text : String)
  deriving DecidableEq, Repr

def Errno.text : Errno → String
  | notExist => "no such file or directory"
  | other text => text

structure FS where
  nodes : List Node
  contents : ℕ → Bytes
  next : ℕ
  distinct : Roster.Distinct Node.path nodes
  bounded : ∀ n ∈ nodes, ∀ i, n.entry = .file i → i < next
  single : ∀ n ∈ nodes, ∀ m ∈ nodes, ∀ i, n.entry = .file i → m.entry = .file i → n.path = m.path

namespace FS

variable {fs fs' : FS} {p q r : Path} {i j : ℕ}

def lookup (fs : FS) (p : Path) : Option Entry :=
  if p = [] then some .dir else (Roster.find Node.path fs.nodes p).map Node.entry

theorem mem_of_lookup {e : Entry} (hp : p ≠ []) (h : fs.lookup p = some e) : ⟨p, e⟩ ∈ fs.nodes := by
  rw [lookup, if_neg hp, Option.map_eq_some_iff] at h
  obtain ⟨⟨path, entry⟩, hfind, rfl⟩ := h
  obtain ⟨hmem, rfl⟩ := mem_of_find hfind
  exact hmem

theorem ne_nil_of_lookup (h : fs.lookup p = some (.file i)) : p ≠ [] := by
  rintro rfl
  simp [lookup] at h

theorem lt_next (h : fs.lookup p = some (.file i)) : i < fs.next :=
  fs.bounded _ (mem_of_lookup (ne_nil_of_lookup h) h) i rfl

theorem path_unique (hp : fs.lookup p = some (.file i)) (hq : fs.lookup q = some (.file i)) :
    p = q :=
  fs.single _ (mem_of_lookup (ne_nil_of_lookup hp) hp) _ (mem_of_lookup (ne_nil_of_lookup hq) hq)
    i rfl rfl

/-! ### Adding and taking away an entry -/

/-- A new directory or symbolic link, or a file with the next number. -/
def add (fs : FS) (n : Node) (h : Roster.find Node.path fs.nodes n.path = none)
    (hn : ∀ i, n.entry ≠ .file i) : FS where
  nodes := fs.nodes ++ [n]
  contents := fs.contents
  next := fs.next
  distinct := fs.distinct.concat h
  bounded := by
    intro m hm i hi
    rcases mem_append.1 hm with hm | hm
    · exact fs.bounded m hm i hi
    · rw [mem_singleton.1 hm] at hi
      exact absurd hi (hn i)
  single := by
    intro m hm m' hm' i hi hi'
    rcases mem_append.1 hm with hm | hm
    · rcases mem_append.1 hm' with hm' | hm'
      · exact fs.single m hm m' hm' i hi hi'
      · rw [mem_singleton.1 hm'] at hi'
        exact absurd hi' (hn i)
    · rw [mem_singleton.1 hm] at hi
      exact absurd hi (hn i)

/-- File `i`, which has no entry, gets one. -/
def link (fs : FS) (p : Path) (i : ℕ) (h : Roster.find Node.path fs.nodes p = none)
    (hi : ∀ n ∈ fs.nodes, n.entry ≠ .file i) : FS where
  nodes := fs.nodes ++ [⟨p, .file i⟩]
  contents := fs.contents
  next := max fs.next (i + 1)
  distinct := fs.distinct.concat h
  bounded := by
    intro m hm j hj
    rcases mem_append.1 hm with hm | hm
    · exact lt_of_lt_of_le (fs.bounded m hm j hj) (le_max_left _ _)
    · rw [mem_singleton.1 hm] at hj
      cases hj
      exact lt_of_lt_of_le (Nat.lt_succ_self i) (le_max_right _ _)
  single := by
    intro m hm m' hm' j hj hj'
    rcases mem_append.1 hm with hm | hm
    · rcases mem_append.1 hm' with hm' | hm'
      · exact fs.single m hm m' hm' j hj hj'
      · rw [mem_singleton.1 hm'] at hj'
        cases hj'
        exact absurd hj (hi m hm)
    · rw [mem_singleton.1 hm] at hj ⊢
      cases hj
      rcases mem_append.1 hm' with hm' | hm'
      · exact absurd hj' (hi m' hm')
      · rw [mem_singleton.1 hm']

def unlink (fs : FS) (p : Path) : FS where
  nodes := Roster.remove Node.path fs.nodes p
  contents := fs.contents
  next := fs.next
  distinct := fs.distinct.remove p
  bounded := fun m hm => fs.bounded m (Roster.mem_remove.1 hm).1
  single := fun m hm m' hm' => fs.single m (Roster.mem_remove.1 hm).1 m' (Roster.mem_remove.1 hm').1

theorem lookup_unlink (hp : p ≠ []) :
    (fs.unlink p).lookup q = if q = p then none else fs.lookup q := by
  by_cases hq : q = p
  · subst hq
    rw [if_pos rfl, lookup, if_neg hp]
    show (find Node.path (remove Node.path fs.nodes q) q).map Node.entry = none
    rw [find_remove_self]
    rfl
  · rw [if_neg hq, lookup, lookup]
    show (if q = [] then _ else (find Node.path (remove Node.path fs.nodes p) q).map _) = _
    rw [find_remove_of_ne hq]

theorem lookup_concat {l : List Node} {n : Node} (hn : n.path ≠ [])
    (h : find Node.path fs.nodes n.path = none) (hl : l = fs.nodes ++ [n]) :
    (if q = [] then some Entry.dir else (find Node.path l q).map Node.entry) =
      if q = n.path then some n.entry else fs.lookup q := by
  subst hl
  by_cases hq : q = n.path
  · subst hq
    rw [if_neg hn, if_pos rfl, find_concat_self h]
    rfl
  · rw [if_neg hq, lookup, find_concat_of_ne hq]

/-! ### The operations -/

def check (fault : Option String) : Except Errno Unit :=
  match fault with
  | none => .ok ()
  | some text => .error (.other text)

def lstat (fs : FS) (p : Path) (fault : Option String) : Except Errno Entry := do
  check fault
  match fs.lookup p with
  | none => .error .notExist
  | some e => .ok e

/-- The directory of `p` is there. -/
def parent (fs : FS) (p : Path) : Except Errno Unit :=
  match fs.lookup p.dropLast with
  | some .dir => .ok ()
  | some _ => .error (.other "not a directory")
  | none => .error .notExist

def mkdir (fs : FS) (p : Path) (fault : Option String) : Except Errno FS := do
  check fault
  fs.parent p
  if h : p ≠ [] ∧ Roster.find Node.path fs.nodes p = none then
    .ok (fs.add ⟨p, .dir⟩ h.2 (by rintro i ⟨⟩))
  else .error (.other "file exists")

/-- `O_CREATE|O_EXCL`: an empty file, with its number. -/
def create (fs : FS) (p : Path) (fault : Option String) : Except Errno (ℕ × FS) := do
  check fault
  fs.parent p
  if h : p ≠ [] ∧ Roster.find Node.path fs.nodes p = none then
    let fs' := fs.link p fs.next h.2 fun n hn he => (fs.bounded n hn _ he).ne rfl
    .ok (fs.next, { fs' with contents := update fs.contents fs.next [] })
  else .error (.other "file exists")

/-- A directory is removed only when nothing is in it. -/
def remove (fs : FS) (p : Path) (fault : Option String) : Except Errno FS := do
  check fault
  match fs.lookup p with
  | none => .error .notExist
  | some e =>
    if p = [] ∨ e = .dir ∧ ∃ n ∈ fs.nodes, n.path ≠ p ∧ p <+: n.path then
      .error (.other "directory not empty")
    else .ok (fs.unlink p)

theorem not_mem_unlink (h : fs.lookup p = some (.file i)) (q : Path) :
    ∀ n ∈ ((fs.unlink p).unlink q).nodes, n.entry ≠ .file i := by
  intro n hn he
  obtain ⟨hn, hpath⟩ := mem_remove.1 (mem_remove.1 hn).1
  exact hpath (fs.single n hn _ (mem_of_lookup (ne_nil_of_lookup h) h) i he rfl)

/-- A file that is at `q` already is replaced; `p` must be a file. -/
def rename (fs : FS) (p q : Path) (fault : Option String) : Except Errno FS := do
  check fault
  fs.parent q
  match h : fs.lookup p with
  | some (.file i) =>
    if fs.lookup q = some .dir then .error (.other "file exists")
    else .ok (((fs.unlink p).unlink q).link q i Roster.find_remove_self (not_mem_unlink h q))
  | some _ => .error (.other "not a regular file")
  | none => .error .notExist

def maxOffset : ℕ := 2 ^ 63 - 1

/-- `content` with `data` from `offset` on; a gap is filled with zeros. -/
def overwrite (content : Bytes) (offset : ℕ) (data : Bytes) : Bytes :=
  (content ++ List.replicate (offset - content.length) 0).take offset ++ data ++
    content.drop (offset + data.length)

theorem overwrite_length (content data : Bytes) :
    overwrite content content.length data = content ++ data := by
  simp [overwrite]

def store (fs : FS) (i : ℕ) (content : Bytes) : FS :=
  { fs with contents := update fs.contents i content }

/-- The error, if any, and the file system after it: a failed write may have stored the
first bytes. -/
def writeAt (fs : FS) (i offset : ℕ) (data : Bytes) (fault : Option (ℕ × String)) :
    Option String × FS :=
  match fault with
  | some (stored, text) =>
    (some text, fs.store i (overwrite (fs.contents i) offset (data.take stored)))
  | none =>
    if maxOffset < offset + data.length then
      (some "file too large",
        fs.store i (overwrite (fs.contents i) offset (data.take (maxOffset - offset))))
    else (none, fs.store i (overwrite (fs.contents i) offset data))

def readAt (fs : FS) (i offset length : ℕ) (fault : Option String) : Except Errno Bytes := do
  check fault
  let data := ((fs.contents i).drop offset).take length
  if data.length = length then .ok data else .error (.other "EOF")

/-- The names of what is directly in `p`. -/
def readDir (fs : FS) (p : Path) : List String :=
  (fs.nodes.filter fun n => n.path ≠ [] ∧ n.path.dropLast = p).filterMap fun n => n.path.getLast?

/-! ### What an operation does -/

section

variable (content : Bytes)

@[simp] theorem contents_store_self : (fs.store i content).contents i = content := by
  show update fs.contents i content i = content
  rw [update_self]

theorem contents_store_of_ne (h : j ≠ i) : (fs.store i content).contents j = fs.contents j := by
  show update fs.contents i content j = fs.contents j
  rw [update_of_ne h]

end

theorem writeAt_store (offset : ℕ) (data : Bytes) (fault : Option (ℕ × String)) :
    ∃ content, (fs.writeAt i offset data fault).2 = fs.store i content := by
  cases fault with
  | some stored => exact ⟨_, rfl⟩
  | none =>
    rw [writeAt]
    split_ifs
    · exact ⟨_, rfl⟩
    · exact ⟨_, rfl⟩

theorem writeAt_eq_none {offset : ℕ} {data : Bytes} {fault : Option (ℕ × String)}
    (h : (fs.writeAt i offset data fault).1 = none) :
    offset + data.length ≤ maxOffset ∧
      (fs.writeAt i offset data fault).2 = fs.store i (overwrite (fs.contents i) offset data) := by
  cases fault with
  | some stored => cases h
  | none =>
    rw [writeAt] at h ⊢
    split_ifs at h ⊢ with hmax
    exact ⟨by omega, rfl⟩

theorem lookup_eq_none_of_find (hp : p ≠ []) (h : find Node.path fs.nodes p = none) :
    fs.lookup p = none := by
  rw [lookup, if_neg hp, h]
  rfl

variable {fault : Option String}

theorem mkdir_eq_ok (h : fs.mkdir p fault = .ok fs') :
    fs.lookup p = none ∧ fs'.next = fs.next ∧ fs'.contents = fs.contents ∧
      ∀ q, fs'.lookup q = if q = p then some .dir else fs.lookup q := by
  obtain ⟨_, -, h⟩ := Checks.bind_eq_ok.1 h
  obtain ⟨_, -, h⟩ := Checks.bind_eq_ok.1 h
  split_ifs at h with hnew
  cases h
  exact ⟨lookup_eq_none_of_find hnew.1 hnew.2, rfl, rfl,
    fun q => lookup_concat (n := ⟨p, .dir⟩) hnew.1 hnew.2 rfl⟩

theorem create_eq_ok (h : fs.create p fault = .ok (i, fs')) :
    fs.lookup p = none ∧ i = fs.next ∧ fs'.next = fs.next + 1 ∧
      fs'.contents = update fs.contents i [] ∧
      ∀ q, fs'.lookup q = if q = p then some (.file i) else fs.lookup q := by
  obtain ⟨_, -, h⟩ := Checks.bind_eq_ok.1 h
  obtain ⟨_, -, h⟩ := Checks.bind_eq_ok.1 h
  split_ifs at h with hnew
  cases h
  refine ⟨lookup_eq_none_of_find hnew.1 hnew.2, rfl, ?_, rfl,
    fun q => lookup_concat (n := ⟨p, .file fs.next⟩) hnew.1 hnew.2 rfl⟩
  exact max_eq_right (Nat.le_succ fs.next)

theorem remove_eq_ok (h : fs.remove p fault = .ok fs') :
    fs'.next = fs.next ∧ fs'.contents = fs.contents ∧
      ∀ q, fs'.lookup q = if q = p then none else fs.lookup q := by
  obtain ⟨_, -, h⟩ := Checks.bind_eq_ok.1 h
  split at h
  · cases h
  · split_ifs at h with hdir
    cases h
    exact ⟨rfl, rfl, fun q => lookup_unlink fun hp => hdir (.inl hp)⟩

theorem remove_file (h : fs.lookup p = some (.file i)) : fs.remove p none = .ok (fs.unlink p) := by
  have hp := ne_nil_of_lookup h
  simp [remove, check, h, hp, bind, Except.bind]

theorem rename_eq_ok (h : fs.rename p q fault = .ok fs') (hp : fs.lookup p = some (.file i))
    (hq : fs.lookup q = none) :
    fs'.next = fs.next ∧ fs'.contents = fs.contents ∧
      ∀ r, fs'.lookup r =
        if r = q then some (.file i) else if r = p then none else fs.lookup r := by
  have hpn := ne_nil_of_lookup hp
  have hqn : q ≠ [] := by
    rintro rfl
    simp [lookup] at hq
  obtain ⟨_, -, h⟩ := Checks.bind_eq_ok.1 h
  obtain ⟨_, -, h⟩ := Checks.bind_eq_ok.1 h
  split at h
  case h_1 j hj =>
    obtain rfl : j = i := by simpa using hj.symm.trans hp
    rw [if_neg (by rw [hq]; rintro ⟨⟩)] at h
    cases h
    have hlt : j < fs.next := lt_next hp
    refine ⟨max_eq_left hlt, rfl, fun r => ?_⟩
    have hlink := @lookup_concat ((fs.unlink p).unlink q) r _ ⟨q, .file j⟩ hqn
      find_remove_self rfl
    refine hlink.trans ?_
    dsimp only
    rw [lookup_unlink hqn, lookup_unlink hpn]
    split_ifs with h1 h2
    · rfl
    · rfl
    · rfl
  case h_2 => cases h
  case h_3 => cases h

theorem exists_rename (hp : fs.lookup p = some (.file i))
    (hparent : fs.lookup q.dropLast = some .dir)
    (hq : fs.lookup q = none) : ∃ fs', fs.rename p q none = .ok fs' := by
  have hdir : fs.parent q = .ok () := by rw [parent, hparent]
  simp only [rename, check, hdir, bind, Except.bind]
  split
  · rw [if_neg (by rw [hq]; rintro ⟨⟩)]
    exact ⟨_, rfl⟩
  · rename_i e hfile he
    exact absurd (Option.mem_unique he hp) (hfile i)
  · rename_i hnone
    rw [hnone] at hp
    cases hp

theorem lstat_eq_notExist (h : fs.lstat p fault = .error .notExist) : fs.lookup p = none := by
  rw [lstat] at h
  cases fault with
  | some text => cases h
  | none =>
    change (match fs.lookup p with
      | none => Except.error Errno.notExist
      | some e => Except.ok e) = _ at h
    cases hlookup : fs.lookup p with
    | none => rfl
    | some e =>
      rw [hlookup] at h
      cases h

theorem fault_of_lstat (h : fs.lstat p fault = .error .notExist) : fault = none := by
  cases fault with
  | some text => cases h
  | none => rfl

theorem lstat_of_lookup (h : fs.lookup p = none) : fs.lstat p none = .error .notExist := by
  simp [lstat, check, h, bind, Except.bind]

theorem parent_of_rename (h : fs.rename p q fault = .ok fs') :
    fs.lookup q.dropLast = some .dir ∧ fault = none := by
  obtain ⟨_, hcheck, h⟩ := Checks.bind_eq_ok.1 h
  obtain ⟨_, hparent, -⟩ := Checks.bind_eq_ok.1 h
  constructor
  · rw [parent] at hparent
    split at hparent
    · assumption
    · cases hparent
    · cases hparent
  · cases fault with
    | some text => cases hcheck
    | none => rfl

/-! ### What an operation leaves alone -/

/-- Every file but `i` keeps its contents and its path, and gets no other one. -/
def Touches (fs fs' : FS) (i : ℕ) : Prop :=
  fs.next ≤ fs'.next ∧ ∀ j, j ≠ i → fs'.contents j = fs.contents j ∧
    ∀ p, fs'.lookup p = some (.file j) ↔ fs.lookup p = some (.file j)

theorem Touches.refl (fs : FS) (i : ℕ) : fs.Touches fs i :=
  ⟨le_rfl, fun _ _ => ⟨rfl, fun _ => Iff.rfl⟩⟩

theorem Touches.trans {fs'' : FS} (h : fs.Touches fs' i) (h' : fs'.Touches fs'' i) :
    fs.Touches fs'' i := by
  refine ⟨h.1.trans h'.1, fun j hj => ?_⟩
  obtain ⟨hcontents, hlookup⟩ := h.2 j hj
  obtain ⟨hcontents', hlookup'⟩ := h'.2 j hj
  exact ⟨hcontents'.trans hcontents, fun p => (hlookup' p).trans (hlookup p)⟩

theorem touches_store (content : Bytes) : fs.Touches (fs.store i content) i :=
  ⟨le_rfl, fun _ hj => ⟨contents_store_of_ne content hj, fun _ => Iff.rfl⟩⟩

theorem touches_remove (h : fs.remove p fault = .ok fs')
    (hp : ∀ j, fs.lookup p = some (.file j) → j = i) : fs.Touches fs' i := by
  obtain ⟨hnext, hcontents, hlookup⟩ := remove_eq_ok h
  refine ⟨hnext.ge, fun j hj => ⟨by rw [hcontents], fun q => ?_⟩⟩
  rw [hlookup]
  split_ifs with hq
  · subst hq
    exact iff_of_false (by rintro ⟨⟩) fun hfile => hj (hp j hfile)
  · rfl

theorem touches_rename (h : fs.rename p q fault = .ok fs') (hp : fs.lookup p = some (.file i))
    (hq : fs.lookup q = none) : fs.Touches fs' i := by
  obtain ⟨hnext, hcontents, hlookup⟩ := rename_eq_ok h hp hq
  refine ⟨hnext.ge, fun j hj => ⟨by rw [hcontents], fun r => ?_⟩⟩
  rw [hlookup]
  split_ifs with hrq hrp
  · subst hrq
    rw [hq]
    exact iff_of_false (by rintro ⟨⟩; exact hj rfl) (by rintro ⟨⟩)
  · subst hrp
    rw [hp]
    exact iff_of_false (by rintro ⟨⟩) (by rintro ⟨⟩; exact hj rfl)
  · rfl

theorem touches_mkdir (h : fs.mkdir p fault = .ok fs') : fs.Touches fs' i := by
  obtain ⟨hp, hnext, hcontents, hlookup⟩ := mkdir_eq_ok h
  refine ⟨hnext.ge, fun j _ => ⟨by rw [hcontents], fun q => ?_⟩⟩
  rw [hlookup]
  split_ifs with hq
  · subst hq
    rw [hp]
    exact iff_of_false (by rintro ⟨⟩) (by rintro ⟨⟩)
  · rfl

theorem touches_create (h : fs.create p fault = .ok (i, fs')) : fs.Touches fs' i := by
  obtain ⟨hp, hi, hnext, hcontents, hlookup⟩ := create_eq_ok h
  refine ⟨by omega, fun j hj => ⟨by rw [hcontents, update_of_ne hj], fun q => ?_⟩⟩
  rw [hlookup]
  split_ifs with hq
  · subst hq
    rw [hp]
    exact iff_of_false (by rintro ⟨⟩; exact hj rfl) (by rintro ⟨⟩)
  · rfl

end FS

end Filesystem
