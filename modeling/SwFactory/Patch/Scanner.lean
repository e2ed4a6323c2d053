import SwFactory.Lexical.Utf8
import SwFactory.Lexical.Splitting
import SwFactory.Text

/-!
# The patch policy

`scm.patch_paths` collects the paths of a patch stream line by line, with one
flag that says whether the line is in a header; `scm.validate_patch` refuses a
stream by the paths that were collected.
-/

namespace SwFactory
namespace Patch

open Lexical

/-! ## Names -/

/-- `chr(int(d, 8))` for three octal digits. -/
def octal : List Char → Option Char
  | [a, b, c] =>
      if [a, b, c].all (fun d => '0' ≤ d && d ≤ '7') then
        some (Char.ofNat
          (((a.toNat - 0x30) * 8 + (b.toNat - 0x30)) * 8 + (c.toNat - 0x30)))
      else
        none
  | _ => none

/-- `_C_ESCAPES`; any other character stands for itself. -/
def cEscape (c : Char) : Char :=
  match c with
  | 't' => '\t'
  | 'n' => '\n'
  | 'r' => '\r'
  | 'a' => Char.ofNat 0x07
  | 'b' => Char.ofNat 0x08
  | 'f' => Char.ofNat 0x0c
  | 'v' => Char.ofNat 0x0b
  | _ => c

/-- `re.sub` of the escapes; `skip` characters belong to an escape already read. -/
def unescape : Nat → List Char → List Char
  | _, [] => []
  | skip + 1, _ :: rest => unescape skip rest
  | 0, '\\' :: rest =>
      match octal (rest.take 3) with
      | some c => c :: unescape 3 rest
      | none =>
          match rest with
          | [] => ['\\']
          | c :: _ => (if c = '\n' then ['\\', c] else [cEscape c]) ++ unescape 1 rest
  | 0, c :: rest => c :: unescape 0 rest

/-- Undo git's C-style path quoting. -/
def unquote (s : List Char) : List Char :=
  if 2 ≤ s.length ∧ s.head? = some '"' ∧ s.getLast? = some '"' then
    unescape 0 s.tail.dropLast
  else
    s

/-- Unquote a name and drop git's `a/` or `b/`. -/
def stripAb (name : List Char) : List Char :=
  match unquote name with
  | 'a' :: '/' :: rest => rest
  | 'b' :: '/' :: rest => rest
  | other => other

/-- A quoted text in front: the text with its quotes, and what follows. -/
def quotedToken : List Char → Option (List Char × List Char)
  | [] => none
  | '"' :: rest => some (['"'], rest)
  | '\\' :: c :: rest =>
      if c = '\n' then none
      else (quotedToken rest).map (fun cut => ('\\' :: c :: cut.1, cut.2))
  | c :: rest =>
      if c = '\\' then none
      else (quotedToken rest).map (fun cut => (c :: cut.1, cut.2))

/-- `re.findall` of quoted texts and words; no more tokens than characters. -/
def tokens : Nat → List Char → List (List Char)
  | 0, _ => []
  | _ + 1, [] => []
  | n + 1, c :: rest =>
      let word :=
        (c :: rest.takeWhile (fun d => !Text.isSpace d)) ::
          tokens n (rest.dropWhile (fun d => !Text.isSpace d))
      if c = '"' then
        match quotedToken rest with
        | some (inside, behind) => ('"' :: inside) :: tokens n behind
        | none => word
      else if Text.isSpace c then
        tokens n rest
      else
        word

/-- `value.startswith(start)`. -/
def startsWith (value start : List Char) : Bool :=
  start.isPrefixOf value

/-- `value.removeprefix(front)`. -/
def removePrefix (front value : List Char) : List Char :=
  if front.isPrefixOf value then value.drop front.length else value

/-- `value.partition(sep)`, without the separator. -/
def partition (sep : List Char) : List Char → List Char × List Char
  | [] => ([], [])
  | c :: rest =>
      if sep.isPrefixOf (c :: rest) then
        ([], (c :: rest).drop sep.length)
      else
        (c :: (partition sep rest).1, (partition sep rest).2)

/-- The name that both halves of a header agree on. -/
def middleName (rest : List Char) : Option (List Char) :=
  let mid := rest.length / 2
  let a := rest.take mid
  let b := rest.drop (mid + 1)
  if rest.length % 2 = 1 ∧ startsWith a "a/".toList ∧ startsWith b "b/".toList ∧
      a.drop 2 = b.drop 2 then
    some (a.drop 2)
  else
    none

/-- Both names of a `diff --git a/X b/Y` header. -/
def headerPaths (rest : List Char) : List (List Char) :=
  if rest.head? = some '"' ∨ rest.getLast? = some '"' then
    (tokens (rest.length + 1) rest).map stripAb
  else
    match middleName rest with
    | some name => [name]
    | none =>
        let cut := partition " b/".toList rest
        [removePrefix "a/".toList cut.1, cut.2]

/-! ## The scanner -/

def diffHeader : List Char :=
  "diff --git ".toList

/-- `_RENAME_COPY`. -/
def renameCopy (line : List Char) : Option (List Char) :=
  ["rename from ", "rename to ", "copy from ", "copy to "].findSome? (fun front =>
    if startsWith line front.toList ∧ front.length < line.length then
      some (line.drop front.length)
    else
      none)

/-- `_FILE_LINE`: the name, without one tab behind it. -/
def fileLine (line : List Char) : Option (List Char) :=
  if (startsWith line "--- ".toList ∨ startsWith line "+++ ".toList) ∧ 4 < line.length then
    let name := line.drop 4
    some (if name.getLast? = some '\t' ∧ 1 < name.length then name.dropLast else name)
  else
    none

/-- The paths a line names where it stands in a header. -/
def linePaths (line : List Char) : List (List Char) :=
  if startsWith line diffHeader then
    headerPaths (line.drop diffHeader.length)
  else if startsWith line "@@".toList then
    []
  else
    match renameCopy line with
    | some name => [unquote name]
    | none =>
        match fileLine line with
        | some name => if stripAb name = "/dev/null".toList then [] else [stripAb name]
        | none => []

/-- The flag of the scanner, and the paths in the order they were met. -/
structure Scan where
  inHeader : Bool
  seen : List (List Char)
deriving DecidableEq, Repr

/-- `seen.setdefault(p, None)` for each of the paths. -/
def Scan.add (paths : List (List Char)) (s : Scan) : Scan :=
  { s with seen :=
    paths.foldl (fun seen p => if seen.contains p then seen else seen ++ [p]) s.seen }

/-- One line of the loop. -/
def Scan.line (s : Scan) (line : List Char) : Scan :=
  if startsWith line diffHeader then
    ({ s with inHeader := true } : Scan).add (linePaths line)
  else if !s.inHeader then
    s
  else if startsWith line "@@".toList then
    { s with inHeader := false }
  else
    s.add (linePaths line)

def Scan.text (s : Scan) (text : List Char) : Scan :=
  (splitlines text).foldl Scan.line s

/-- Every repo-relative path a format-patch stream touches. -/
def patchPaths (patch : List UInt8) : List (List Char) :=
  (Scan.text ⟨false, []⟩ (decodeReplace patch)).seen

/-! ## The checks -/

inductive PatchError
  | symlink
  | absolutePath (path : List Char)
  | escapesCheckout (path : List Char)
  | touchesGit (path : List Char)
  | outsideAllowed (path : List Char) (allowed : List (List Char))
deriving DecidableEq, Repr

/-- `_SYMLINK_MODE` on some line of the text. -/
def createsSymlink (text : List Char) : Bool :=
  (splitAll '\n' text).any (fun line =>
    line == "new mode 120000".toList || line == "new file mode 120000".toList)

/-- `_norm_prefix`. -/
def normPrefix (value : List Char) : List Char :=
  trim (· == '/') (removePrefix "./".toList (trim Text.isSpace value))

/-- The path is the allowed one or lies below it. -/
def under (path allowed : List Char) : Bool :=
  allowed.isEmpty || path == allowed || startsWith path (allowed ++ ['/'])

def checkPath (prefixes : Option (List (List Char))) (path : List Char) :
    Except PatchError Unit :=
  if path.head? = some '/' ∨ path[1]? = some ':' then
    .error (.absolutePath path)
  else if "..".toList ∈ splitAll '/' path then
    .error (.escapesCheckout path)
  else if ".git".toList ∈ splitAll '/' path then
    .error (.touchesGit path)
  else
    match prefixes with
    | none => .ok ()
    | some allowed =>
        if allowed.any (under path) then
          .ok ()
        else
          .error (.outsideAllowed path allowed)

/-- The first refusal of a path, if there is one. -/
def checkPaths (prefixes : Option (List (List Char))) :
    List (List Char) → Except PatchError Unit
  | [] => .ok ()
  | path :: rest => do
      checkPath prefixes path
      checkPaths prefixes rest

/-- Reject a patch that could escape the checkout or smuggle a symlink. -/
def validatePatch (patch : List UInt8) (allowedPrefixes : Option (List (List Char))) :
    Except PatchError Unit :=
  if createsSymlink (decodeReplace patch) then
    .error .symlink
  else
    checkPaths (allowedPrefixes.map (List.map normPrefix)) (patchPaths patch)

/-! ## What the checks accept -/

/-- Relative, without `..` and `.git`, and below an allowed prefix. -/
structure Safe (allowedPrefixes : Option (List (List Char))) (path : List Char) : Prop where
  relative : path.head? ≠ some '/'
  inside : "..".toList ∉ splitAll '/' path
  notGit : ".git".toList ∉ splitAll '/' path
  allowed : ∀ prefixes, allowedPrefixes = some prefixes →
    ∃ p ∈ prefixes, under path (normPrefix p) = true

theorem safe_of_checkPath {allowedPrefixes : Option (List (List Char))} {path : List Char}
    {u : Unit}
    (h : checkPath (allowedPrefixes.map (List.map normPrefix)) path = .ok u) :
    Safe allowedPrefixes path := by
  unfold checkPath at h
  split at h
  · cases h
  rename_i habsolute
  split at h
  · cases h
  rename_i hinside
  split at h
  · cases h
  rename_i hgit
  refine ⟨fun hslash => habsolute (Or.inl hslash), hinside, hgit, ?_⟩
  rintro prefixes rfl
  dsimp only [Option.map_some] at h
  split at h
  · rename_i hany
    simpa using hany
  · cases h

theorem safe_of_checkPaths {allowedPrefixes : Option (List (List Char))}
    {paths : List (List Char)} {u : Unit}
    (h : checkPaths (allowedPrefixes.map (List.map normPrefix)) paths = .ok u) :
    ∀ path ∈ paths, Safe allowedPrefixes path := by
  induction paths with
  | nil =>
      simp
  | cons first rest ih =>
      unfold checkPaths at h
      cases hfirst : checkPath (allowedPrefixes.map (List.map normPrefix)) first with
      | error e =>
          rw [hfirst] at h
          cases h
      | ok v =>
          rw [hfirst] at h
          intro path hpath
          rcases List.mem_cons.mp hpath with rfl | hpath
          · exact safe_of_checkPath hfirst
          · exact ih h path hpath

/-- What is accepted has only safe paths among those that were collected. -/
theorem safe_of_validatePatch {patch : List UInt8}
    {allowedPrefixes : Option (List (List Char))} {u : Unit}
    (h : validatePatch patch allowedPrefixes = .ok u) :
    ∀ path ∈ patchPaths patch, Safe allowedPrefixes path := by
  unfold validatePatch at h
  split at h
  · cases h
  · exact safe_of_checkPaths h

/-! ## What the scanner keeps -/

theorem Scan.mem_add {paths : List (List Char)} {s : Scan} {p : List Char} :
    p ∈ (s.add paths).seen ↔ p ∈ s.seen ∨ p ∈ paths := by
  obtain ⟨inHeader, seen⟩ := s
  unfold Scan.add
  dsimp only
  induction paths generalizing seen with
  | nil =>
      simp
  | cons q paths ih =>
      rw [List.foldl_cons, ih]
      split
      · rename_i hq
        have hmem : q ∈ seen := by simpa using hq
        constructor
        · rintro (h | h)
          · exact Or.inl h
          · exact Or.inr (List.mem_cons_of_mem _ h)
        · rintro (h | h)
          · exact Or.inl h
          · rcases List.mem_cons.mp h with rfl | h
            · exact Or.inl hmem
            · exact Or.inr h
      · simp only [List.mem_append, List.mem_cons, List.not_mem_nil, or_false, or_assoc]

@[simp] theorem Scan.add_inHeader (paths : List (List Char)) (s : Scan) :
    (s.add paths).inHeader = s.inHeader :=
  rfl

/-- No path is forgotten. -/
theorem Scan.seen_line {s : Scan} {line p : List Char} (h : p ∈ s.seen) :
    p ∈ (s.line line).seen := by
  unfold Scan.line
  split
  · exact Scan.mem_add.mpr (Or.inl h)
  split
  · exact h
  split
  · exact h
  · exact Scan.mem_add.mpr (Or.inl h)

theorem Scan.seen_foldl {s : Scan} {lines : List (List Char)} {p : List Char}
    (h : p ∈ s.seen) :
    p ∈ (lines.foldl Scan.line s).seen := by
  induction lines generalizing s with
  | nil =>
      exact h
  | cons line lines ih =>
      exact ih (Scan.seen_line h)

/-- An empty line is passed over. -/
theorem Scan.line_nil (s : Scan) : s.line [] = s := by
  have hdiff : startsWith [] diffHeader = false := rfl
  have hat : startsWith [] "@@".toList = false := rfl
  have hpaths : linePaths [] = [] := rfl
  unfold Scan.line
  rw [hdiff, hat, hpaths]
  cases s with
  | mk inHeader seen =>
      cases inHeader <;> rfl

/-- A text is scanned line by line. -/
theorem Scan.text_append (s : Scan) (text rest : List Char) :
    s.text (text ++ '\n' :: rest) = (s.text text).text rest := by
  unfold Scan.text
  rw [splitlines_append, List.foldl_append]
  rcases splitlines_concat text with h | h
  · rw [h]
  · rw [h, List.foldl_append, List.foldl_cons, List.foldl_nil, Scan.line_nil]

end Patch
end SwFactory
