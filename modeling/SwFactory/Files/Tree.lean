import SwFactory.Machine.Dicts

/-!
# Trees of files

A tree has directories, files and symbolic links at its locations, over any names
and any contents.  A walk takes the steps of a path one by one from a directory on,
follows the links it meets, and notes every location that it looks at: its way.

* `found_keep`: where entries are dropped from a tree, a walk finds what it found
  before exactly if nothing on its way is dropped.
* `found_of_put`: a walk that ends at a directory has not looked at a location
  where a file is put.
* `found_child`: a name behind a path to a directory is looked up in that directory.
-/

namespace SwFactory
namespace Files

open Machine

universe u v

/-- One step of a path. -/
inductive Part (ν : Type u)
  | up
  | into (name : ν)
deriving DecidableEq

/-- A path, from the root or from the place where it is used. -/
structure Path (ν : Type u) where
  rooted : Bool
  steps : List (Part ν)
deriving DecidableEq

/-- The names that lead to an entry from the root. -/
abbrev Loc (ν : Type u) :=
  List ν

inductive Entry (ν : Type u) (β : Type v)
  | dir
  | file (content : β)
  | link (target : Path ν)
deriving DecidableEq

/-- The entries below the root, which is a directory. -/
abbrev Tree (ν : Type u) (β : Type v) :=
  Dict (Loc ν) (Entry ν β)

section Paths

variable {ν : Type u}

/-- The location that the steps of a path start from. -/
def Path.start (p : Path ν) (here : Loc ν) : Loc ν :=
  if p.rooted then [] else here

/-- `path / name` -/
def Path.child (p : Path ν) (name : ν) : Path ν :=
  { p with steps := p.steps ++ [.into name] }

@[simp] theorem start_child (p : Path ν) (name : ν) (here : Loc ν) :
    (p.child name).start here = p.start here :=
  rfl

/-- The path of a location. -/
def Path.to (loc : Loc ν) : Path ν :=
  ⟨true, loc.map .into⟩

end Paths

section Trees

variable {ν : Type u}
variable {β : Type v}
variable [DecidableEq ν]

namespace Tree

def entry (t : Tree ν β) (loc : Loc ν) : Option (Entry ν β) :=
  if loc = [] then some .dir else Dict.get? t loc

/-- The entries that are kept. -/
def keep (t : Tree ν β) (kept : Loc ν → Bool) : Tree ν β :=
  t.filter (fun e => kept e.1)

/-- A new entry, in the place of an old one. -/
def put (t : Tree ν β) (loc : Loc ν) (e : Entry ν β) : Tree ν β :=
  Dict.assign t loc e

/-- Whether the directory has entries. -/
def hasChildren (t : Tree ν β) (loc : Loc ν) : Bool :=
  t.any (fun e => decide (e.1 ≠ [] ∧ e.1.dropLast = loc))

/-- `mkdir(parents=True, exist_ok=True)` -/
def mkdirs (t : Tree ν β) (loc : Loc ν) : Option (Tree ν β) :=
  loc.inits.foldlM
    (fun t here =>
      match t.entry here with
      | none => some (t.put here .dir)
      | some .dir => some t
      | some _ => none) t

theorem entry_keep {kept : Loc ν → Bool} (hroot : kept [] = true) (t : Tree ν β)
    (loc : Loc ν) : (t.keep kept).entry loc = if kept loc then t.entry loc else none := by
  unfold entry keep
  by_cases hloc : loc = []
  · rw [if_pos hloc, if_pos hloc, hloc, hroot]
    rfl
  · rw [if_neg hloc, if_neg hloc, Dict.get?_filter]

theorem entry_put {loc : Loc ν} (hloc : loc ≠ []) (t : Tree ν β) (e : Entry ν β)
    (here : Loc ν) : (t.put loc e).entry here = if here = loc then some e else t.entry here := by
  unfold entry put
  by_cases hhere : here = []
  · have hne : here ≠ loc := fun heq => hloc (heq ▸ hhere)
    rw [if_pos hhere, if_neg hne, if_pos hhere]
  · rw [if_neg hhere, if_neg hhere, Dict.get?_assign]

end Tree

/-! ## Walks -/

/-- The locations that a walk has looked at, and the entry that it ends at. -/
structure Walk (ν : Type u) (β : Type v) where
  way : List (Loc ν)
  found : Option (Loc ν × Entry ν β)

def Walk.behind (here : Loc ν) (w : Walk ν β) : Walk ν β :=
  ⟨here :: w.way, w.found⟩

namespace Tree

/-- A walk whose links are followed by `follow`; a link at its end is followed if `last`. -/
def walkFrom (t : Tree ν β) (last : Bool) (follow : Loc ν → List (Part ν) → Walk ν β) :
    Loc ν → List (Part ν) → Walk ν β
  | here, [] => ⟨[here], (t.entry here).map (Prod.mk here)⟩
  | here, .up :: rest => walkFrom t last follow here.dropLast rest
  | here, .into n :: rest =>
      match t.entry (here ++ [n]) with
      | none => ⟨[here ++ [n]], none⟩
      | some .dir => (walkFrom t last follow (here ++ [n]) rest).behind (here ++ [n])
      | some (.file content) =>
          ⟨[here ++ [n]], if rest = [] then some (here ++ [n], .file content) else none⟩
      | some (.link target) =>
          if rest = [] ∧ last = false then
            ⟨[here ++ [n]], some (here ++ [n], .link target)⟩
          else
            (follow (target.start here) (target.steps ++ rest)).behind (here ++ [n])

/-- A walk that follows at most so many links. -/
def walk (t : Tree ν β) (last : Bool) : Nat → Loc ν → List (Part ν) → Walk ν β
  | 0 => walkFrom t last (fun _ _ => ⟨[], none⟩)
  | links + 1 => walkFrom t last (walk t last links)

end Tree

/-! ### Dropped entries -/

section Dropping

variable {kept : Loc ν → Bool}

/-- The walk `w'` finds what `w` finds, if nothing on the way of `w` is dropped. -/
def Walk.Kept (kept : Loc ν → Bool) (w w' : Walk ν β) : Prop :=
  w'.found = if w.way.all kept then w.found else none

omit [DecidableEq ν] in
theorem Walk.Kept.behind {w w' : Walk ν β} (h : w.Kept kept w') {here : Loc ν}
    (hhere : kept here = true) : (w.behind here).Kept kept (w'.behind here) := by
  unfold Walk.Kept Walk.behind at *
  rw [List.all_cons, hhere, Bool.true_and]
  exact h

theorem kept_walkFrom (hroot : kept [] = true) {t : Tree ν β} {last : Bool}
    {follow follow' : Loc ν → List (Part ν) → Walk ν β}
    (hfollow : ∀ here steps, (follow here steps).Kept kept (follow' here steps))
    (here : Loc ν) (steps : List (Part ν)) :
    (t.walkFrom last follow here steps).Kept kept
      ((t.keep kept).walkFrom last follow' here steps) := by
  induction steps generalizing here with
  | nil =>
      unfold Tree.walkFrom Walk.Kept
      rw [Tree.entry_keep hroot]
      cases hkept : kept here <;> simp [hkept]
  | cons p rest ih =>
      cases p with
      | up =>
          exact ih here.dropLast
      | into n =>
          unfold Tree.walkFrom
          rw [Tree.entry_keep hroot]
          cases hkept : kept (here ++ [n]) with
          | false =>
              have hdropped : ∀ w : Walk ν β, (w.behind (here ++ [n])).Kept kept
                  ⟨[here ++ [n]], none⟩ := by
                intro w
                simp [Walk.Kept, Walk.behind, hkept]
              cases t.entry (here ++ [n]) with
              | none => exact hdropped ⟨[], none⟩
              | some e =>
                  cases e with
                  | dir => exact hdropped _
                  | file content => exact hdropped ⟨[], _⟩
                  | link target =>
                      dsimp only
                      split
                      · exact hdropped ⟨[], _⟩
                      · exact hdropped _
          | true =>
              have hsame : ∀ found : Option (Loc ν × Entry ν β),
                  Walk.Kept kept ⟨[here ++ [n]], found⟩ ⟨[here ++ [n]], found⟩ := by
                intro found
                simp [Walk.Kept, hkept]
              rw [if_pos rfl]
              cases t.entry (here ++ [n]) with
              | none => exact hsame none
              | some e =>
                  cases e with
                  | dir => exact (ih (here ++ [n])).behind hkept
                  | file content => exact hsame _
                  | link target =>
                      dsimp only
                      split
                      · exact hsame _
                      · exact (hfollow _ _).behind hkept

/-- **What a walk finds among the entries that are kept.** -/
theorem found_keep (hroot : kept [] = true) (t : Tree ν β) (last : Bool) (links : Nat)
    (here : Loc ν) (steps : List (Part ν)) :
    ((t.keep kept).walk last links here steps).found =
      if (t.walk last links here steps).way.all kept then (t.walk last links here steps).found
      else none := by
  induction links generalizing here steps with
  | zero =>
      refine kept_walkFrom hroot (fun _ _ => ?_) here steps
      simp [Walk.Kept]
  | succ links ih =>
      exact kept_walkFrom hroot (fun here steps => ih here steps) here steps

end Dropping

/-! ### New files -/

section Putting

variable {t : Tree ν β}
variable {loc : Loc ν}
variable {content : β}

theorem found_of_put_from (hloc : loc ≠ []) {last : Bool}
    {follow follow' : Loc ν → List (Part ν) → Walk ν β}
    (hfollow : ∀ here steps home, (follow' here steps).found = some (home, .dir) →
      (follow here steps).found = some (home, .dir))
    {here home : Loc ν} {steps : List (Part ν)}
    (h : ((t.put loc (.file content)).walkFrom last follow' here steps).found =
      some (home, .dir)) :
    (t.walkFrom last follow here steps).found = some (home, .dir) := by
  induction steps generalizing here with
  | nil =>
      unfold Tree.walkFrom at h ⊢
      rw [Tree.entry_put hloc] at h
      split at h
      · cases h
      · exact h
  | cons p rest ih =>
      cases p with
      | up =>
          exact ih h
      | into n =>
          unfold Tree.walkFrom at h ⊢
          rw [Tree.entry_put hloc] at h
          by_cases heq : here ++ [n] = loc
          · rw [if_pos heq] at h
            dsimp only at h
            split at h <;> cases h
          · rw [if_neg heq] at h
            cases hentry : t.entry (here ++ [n]) with
            | none =>
                rw [hentry] at h
                cases h
            | some e =>
                rw [hentry] at h
                cases e with
                | dir =>
                    exact ih h
                | file old =>
                    exact h
                | link target =>
                    dsimp only at h ⊢
                    split at h
                    · cases h
                    · rename_i hlast
                      rw [if_neg hlast]
                      exact hfollow _ _ _ h

/-- **A walk that ends at a directory has not looked at the new file.** -/
theorem found_of_put (hloc : loc ≠ []) {last : Bool} {links : Nat} {here home : Loc ν}
    {steps : List (Part ν)}
    (h : ((t.put loc (.file content)).walk last links here steps).found = some (home, .dir)) :
    (t.walk last links here steps).found = some (home, .dir) := by
  induction links generalizing here steps home with
  | zero =>
      refine found_of_put_from hloc (fun _ _ _ hnone => ?_) h
      cases hnone
  | succ links ih =>
      exact found_of_put_from hloc (fun _ _ _ hfound => ih hfound) h

end Putting

/-! ### The end of a path -/

section Ends

variable {t : Tree ν β}

theorem found_child_from {follow follow' : Loc ν → List (Part ν) → Walk ν β} {n : ν}
    {home : Loc ν}
    (hfollow : ∀ here steps, (follow here steps).found = some (home, .dir) →
      (follow' here (steps ++ [.into n])).found =
        (t.entry (home ++ [n])).map (Prod.mk (home ++ [n])))
    {here : Loc ν} {steps : List (Part ν)}
    (h : (t.walkFrom true follow here steps).found = some (home, .dir)) :
    (t.walkFrom false follow' here (steps ++ [.into n])).found =
      (t.entry (home ++ [n])).map (Prod.mk (home ++ [n])) := by
  induction steps generalizing here with
  | nil =>
      simp only [Tree.walkFrom] at h
      obtain ⟨e, -, he⟩ := Option.map_eq_some_iff.mp h
      cases he
      simp only [List.nil_append, Tree.walkFrom]
      cases hentry : t.entry (home ++ [n]) with
      | none => rfl
      | some e =>
          cases e with
          | dir => simp [Walk.behind]
          | file content => rfl
          | link target => rfl
  | cons p rest ih =>
      cases p with
      | up =>
          exact ih h
      | into m =>
          simp only [List.cons_append, Tree.walkFrom] at h ⊢
          cases hentry : t.entry (here ++ [m]) with
          | none =>
              rw [hentry] at h
              cases h
          | some e =>
              rw [hentry] at h
              cases e with
              | dir =>
                  exact ih h
              | file content =>
                  dsimp only at h
                  split at h <;> cases h
              | link target =>
                  dsimp only at h ⊢
                  rw [if_neg (by simp)] at h ⊢
                  have hnext := hfollow _ _ h
                  rw [List.append_assoc] at hnext
                  exact hnext

/-- A name behind a path to a directory is looked up there. -/
theorem found_child {links : Nat} {here home : Loc ν} {steps : List (Part ν)}
    (h : (t.walk true links here steps).found = some (home, .dir)) (n : ν) :
    (t.walk false links here (steps ++ [.into n])).found =
      (t.entry (home ++ [n])).map (Prod.mk (home ++ [n])) := by
  induction links generalizing here steps with
  | zero =>
      refine found_child_from (fun _ _ hnone => ?_) h
      cases hnone
  | succ links ih =>
      exact found_child_from (fun _ _ hfound => ih hfound) h

theorem found_follow_from {follow follow' : Loc ν → List (Part ν) → Walk ν β}
    (hfollow : ∀ here steps, (∀ loc target, (follow here steps).found ≠ some (loc, .link target)) →
      (follow' here steps).found = (follow here steps).found)
    {here : Loc ν} {steps : List (Part ν)}
    (h : ∀ loc target, (t.walkFrom false follow here steps).found ≠ some (loc, .link target)) :
    (t.walkFrom true follow' here steps).found = (t.walkFrom false follow here steps).found := by
  induction steps generalizing here with
  | nil =>
      rfl
  | cons p rest ih =>
      cases p with
      | up =>
          exact ih h
      | into n =>
          simp only [Tree.walkFrom] at h ⊢
          cases hentry : t.entry (here ++ [n]) with
          | none => rfl
          | some e =>
              rw [hentry] at h
              cases e with
              | dir =>
                  exact ih h
              | file content =>
                  rfl
              | link target =>
                  dsimp only at h ⊢
                  rw [if_neg (by simp)]
                  split at h
                  · exact absurd rfl (h _ _)
                  · rename_i hlast
                    rw [if_neg hlast]
                    exact hfollow _ _ h

/-- A path that does not end at a link ends where it ends when links are followed. -/
theorem found_follow {links : Nat} {here : Loc ν} {steps : List (Part ν)}
    (h : ∀ loc target, (t.walk false links here steps).found ≠ some (loc, .link target)) :
    (t.walk true links here steps).found = (t.walk false links here steps).found := by
  induction links generalizing here steps with
  | zero =>
      exact found_follow_from (fun _ _ _ => rfl) h
  | succ links ih =>
      exact found_follow_from (fun _ _ hnext => ih hnext) h

end Ends

/-! ## What a program does with a path -/

def Entry.content? : Entry ν β → Option β
  | .file content => some content
  | _ => none

namespace Tree

section Access

variable (t : Tree ν β)
variable (links : Nat)
variable (cwd : Loc ν)

def lstat (p : Path ν) : Walk ν β :=
  t.walk false links (p.start cwd) p.steps

def stat (p : Path ν) : Walk ν β :=
  t.walk true links (p.start cwd) p.steps

def isSymlink (p : Path ν) : Bool :=
  match (t.lstat links cwd p).found with
  | some (_, .link _) => true
  | _ => false

def isDir (p : Path ν) : Bool :=
  match (t.stat links cwd p).found with
  | some (_, .dir) => true
  | _ => false

/-- The bytes of the file at the end of a path. -/
def contents (p : Path ν) : Option β :=
  (t.stat links cwd p).found.bind (fun found => found.2.content?)

/-- The bytes of a file, not those behind a link: `p.is_symlink() or not p.is_file()` refuses. -/
def regular (p : Path ν) : Option β :=
  if t.isSymlink links cwd p then none else t.contents links cwd p

/-- `os.replace` of a file to a name in a directory. -/
def replaceIn (dir : Path ν) (n : ν) (content : β) : Option (Tree ν β) :=
  match (t.stat links cwd dir).found with
  | some (home, .dir) =>
      match t.entry (home ++ [n]) with
      | some .dir => none
      | _ => some (t.put (home ++ [n]) (.file content))
  | _ => none

/-- What `shutil.rmtree` spares: it deletes below a directory what it can. -/
def spared (p : Path ν) (deletes : Loc ν → Bool) : Loc ν → Bool :=
  match (t.lstat links cwd p).found with
  | some (loc, .dir) => fun l => l.isEmpty || !(loc.isPrefixOf l && deletes l)
  | _ => fun _ => true

/-- `shutil.rmtree(p, ignore_errors=True)` -/
def rmtree (p : Path ν) (deletes : Loc ν → Bool) : Tree ν β :=
  t.keep (t.spared links cwd p deletes)

end Access

/-- A real path whose links are resolved by `resolve`; what does not exist is kept. -/
def realFrom (t : Tree ν β) (resolve : Loc ν → List (Part ν) → Option (Loc ν)) :
    Loc ν → List (Part ν) → Option (Loc ν)
  | here, [] => some here
  | here, .up :: rest => realFrom t resolve here.dropLast rest
  | here, .into n :: rest =>
      match t.entry (here ++ [n]) with
      | some (.link target) =>
          (resolve (target.start here) target.steps).bind (fun there => realFrom t resolve there rest)
      | _ => realFrom t resolve (here ++ [n]) rest

/-- A real path, with links in links at most so deep. -/
def real (t : Tree ν β) : Nat → Loc ν → List (Part ν) → Option (Loc ν)
  | 0 => realFrom t (fun _ _ => none)
  | depth + 1 => realFrom t (real t depth)

/-- `Path.resolve()`: links that are deeper in each other than there are entries are a loop. -/
def resolve (t : Tree ν β) (cwd : Loc ν) (p : Path ν) : Option (Loc ν) :=
  t.real t.length (p.start cwd) p.steps

end Tree

section Access

variable {t : Tree ν β}
variable {links : Nat}
variable {cwd : Loc ν}

/-- A regular file is what a walk finds that follows no link at its end. -/
theorem regular_eq (p : Path ν) :
    t.regular links cwd p = (t.lstat links cwd p).found.bind (fun found => found.2.content?) := by
  have hfollow : (∀ loc target,
      (t.walk false links (p.start cwd) p.steps).found ≠ some (loc, .link target)) →
        (t.walk true links (p.start cwd) p.steps).found =
          (t.walk false links (p.start cwd) p.steps).found :=
    found_follow
  unfold Tree.regular Tree.isSymlink Tree.contents Tree.stat
  unfold Tree.lstat
  cases hfound : (t.walk false links (p.start cwd) p.steps).found with
  | none =>
      rw [hfound] at hfollow
      simp [hfollow nofun]
  | some found =>
      obtain ⟨loc, e⟩ := found
      cases e with
      | link target => rfl
      | dir =>
          rw [hfound] at hfollow
          simp [hfollow (by simp)]
      | file content =>
          rw [hfound] at hfollow
          simp [hfollow (by simp)]

theorem stat_keep {kept : Loc ν → Bool} (hroot : kept [] = true) (p : Path ν) :
    ((t.keep kept).stat links cwd p).found =
      if (t.stat links cwd p).way.all kept then (t.stat links cwd p).found else none :=
  found_keep hroot t true links _ p.steps

/-- **A regular file is found again** exactly if nothing on the way to it is dropped. -/
theorem regular_keep {kept : Loc ν → Bool} (hroot : kept [] = true) (p : Path ν) :
    (t.keep kept).regular links cwd p =
      if (t.lstat links cwd p).way.all kept then t.regular links cwd p else none := by
  rw [regular_eq, regular_eq, Tree.lstat, found_keep hroot]
  unfold Tree.lstat
  split <;> rfl

theorem lstat_child {p : Path ν} {home : Loc ν}
    (h : (t.stat links cwd p).found = some (home, .dir)) (n : ν) :
    (t.lstat links cwd (p.child n)).found =
      (t.entry (home ++ [n])).map (Prod.mk (home ++ [n])) :=
  found_child h n

/-- A regular file in a directory. -/
theorem regular_child {p : Path ν} {home : Loc ν}
    (h : (t.stat links cwd p).found = some (home, .dir)) (n : ν) :
    t.regular links cwd (p.child n) = (t.entry (home ++ [n])).bind Entry.content? := by
  rw [regular_eq, lstat_child h]
  cases t.entry (home ++ [n]) <;> rfl

theorem isDir_iff {p : Path ν} :
    t.isDir links cwd p = true ↔ ∃ home, (t.stat links cwd p).found = some (home, .dir) := by
  unfold Tree.isDir
  cases (t.stat links cwd p).found with
  | none => simp
  | some found =>
      obtain ⟨loc, e⟩ := found
      cases e <;> simp

theorem replaceIn_eq_some {dir : Path ν} {n : ν} {content : β} {t' : Tree ν β}
    (h : t.replaceIn links cwd dir n content = some t') :
    ∃ home, (t.stat links cwd dir).found = some (home, .dir) ∧
      t' = t.put (home ++ [n]) (.file content) := by
  unfold Tree.replaceIn at h
  split at h
  · rename_i home hfound
    split at h
    · cases h
    · cases h
      exact ⟨home, hfound, rfl⟩
  · cases h

theorem spared_nil (p : Path ν) (deletes : Loc ν → Bool) :
    t.spared links cwd p deletes [] = true := by
  unfold Tree.spared
  cases (t.lstat links cwd p).found with
  | none => rfl
  | some found =>
      obtain ⟨loc, e⟩ := found
      cases e <;> rfl

/-- What stands in a directory beside the one that is deleted is spared. -/
theorem spared_sibling {p : Path ν} {home : Loc ν}
    (h : (t.stat links cwd p).found = some (home, .dir)) {n m : ν} (hne : n ≠ m)
    (deletes : Loc ν → Bool) :
    t.spared links cwd (p.child n) deletes (home ++ [m]) = true := by
  unfold Tree.spared
  rw [lstat_child h]
  cases t.entry (home ++ [n]) with
  | none => rfl
  | some e =>
      cases e with
      | file content => rfl
      | link target => rfl
      | dir =>
          have hbehind : (home ++ [n]).isPrefixOf (home ++ [m]) = false := by
            rw [Bool.eq_false_iff, ne_eq, List.isPrefixOf_iff_prefix,
              List.prefix_append_right_inj]
            simp [hne]
          simp [hbehind]

end Access

end Trees

end Files
end SwFactory
