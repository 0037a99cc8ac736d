import TMTransport.JsonREST.Tokens
import TMTransport.Library.PosixPath

/-!
# The documents of the JSON REST server

`getDoc` looks at the text of a path: it has to start with a slash, and must not have
two dots in a row. What stands behind the slash is appended to the document root, and
replaces it if it starts with a slash itself.
-/

namespace Documents

open PosixPath
open Tokens (Bytes ascii)

/-- `TOKEN_AUTHENTICATION_REQUEST` -/
def tokenAuthenticationRequest : Bytes := ascii "/__API_AUTHENTICATION"

def questionMark : UInt8 := '?'.toUInt8

/-- `pathStr`: the target, up to the first question mark. -/
def pathStr (target : Bytes) : Bytes := target.takeWhile (· ≠ questionMark)

def mimeMap : List (Bytes × Bytes) :=
  [(ascii ".html", ascii "text/html"), (ascii ".htm", ascii "text/html"),
    (ascii ".css", ascii "text/css"), (ascii ".txt", ascii "text/plain"),
    (ascii ".js", ascii "application/javascript"), (ascii ".json", ascii "application/json"),
    (ascii ".xml", ascii "application/xml"), (ascii ".png", ascii "image/png"),
    (ascii ".jpe", ascii "image/jpeg"), (ascii ".jpeg", ascii "image/jpeg"),
    (ascii ".jpg", ascii "image/jpeg"), (ascii ".gif", ascii "image/gif"),
    (ascii ".bmp", ascii "image/bmp"), (ascii ".ico", ascii "image/vnd.microsoft.icon"),
    (ascii ".tiff", ascii "image/tiff"), (ascii ".tif", ascii "image/tiff"),
    (ascii ".svg", ascii "image/svg+xml"), (ascii ".svgz", ascii "image/svg+xml"),
    (ascii ".pdf", ascii "application/pdf"), (ascii ".wav", ascii "audio/wav"),
    (ascii ".mp3", ascii "audio/mpeg"), (ascii ".mp4", ascii "video/mp4"),
    (ascii ".mpeg", ascii "video/mpeg"), (ascii ".mpg", ascii "video/mpeg"),
    (ascii ".dat", ascii "application/octet-stream"),
    (ascii ".bin", ascii "application/octet-stream")]

def defaultMime : Bytes := ascii "application/text"

/-- Of a path that names a directory, `index.html` in it. -/
def orIndex (fullPath : Path) : Path :=
  if filename fullPath = [] then append fullPath (ascii "index.html") else fullPath

/-- `getDoc`. The document roots are by port, and `there` says what exists. -/
def getDoc (docRootMap : Int → Option Path) (there : Path → Bool) (port : Int) (path : Bytes) :
    Option (Path × Bytes) :=
  if ¬ isAbsolute path ∨ occurs [dot, dot] path then none
  else
    match docRootMap port with
    | none => none
    | some root =>
      let fullPath := orIndex (append root (path.drop 1))
      if there fullPath then
        some (fullPath, (mimeMap.lookup (extension fullPath)).getD defaultMime)
      else none

/-- What the server returns lies under the document root of the port. -/
def Inside (docRootMap : Int → Option Path) (there : Path → Bool) (port : Int) (target : Bytes) :
    Prop :=
  ∀ doc, getDoc docRootMap there port (pathStr target) = some doc →
    ∃ root, docRootMap port = some root ∧ Under doc.1 root

variable {docRootMap : Int → Option Path} {there : Path → Bool} {port : Int} {path root : Path}

/-! ## Which path it is -/

theorem not_occurs_drop {s : Path} (h : occurs [dot, dot] s = false) (n : Nat) :
    occurs [dot, dot] (s.drop n) = false := by
  induction n generalizing s with
  | zero => exact h
  | succ n ih =>
      cases s with
      | nil => rfl
      | cons c s => exact ih (not_occurs_cons h)

/-- The page of a directory lies where the directory does. -/
theorem under_orIndex (h : Under path root) : Under (orIndex path) root := by
  unfold orIndex
  split
  · have hindex : isAbsolute (ascii "index.html") = false := by decide
    obtain ⟨hroot, rest, hrest, hup⟩ := h
    obtain ⟨hpath, more, hmore, hup'⟩ :=
      under_append (p := path) hindex
        (show [dot, dot] ∉ names (ascii "index.html") by decide +kernel)
    refine ⟨hpath.trans hroot, rest ++ more, ?_, fun hmem => ?_⟩
    · rw [hmore, hrest, List.append_assoc]
    · rcases List.mem_append.mp hmem with hmem | hmem
      · exact hup hmem
      · exact hup' hmem
  · exact h

theorem append_absolute {q : Path} (h : isAbsolute q = true) (p : Path) : append p q = q :=
  if_pos h

/-- What `getDoc` has looked at when it returns something. -/
theorem getDoc_eq_some {doc : Path × Bytes} (h : getDoc docRootMap there port path = some doc) :
    isAbsolute path = true ∧ occurs [dot, dot] path = false ∧ ∃ root,
      docRootMap port = some root ∧ there doc.1 = true ∧
        doc.1 = orIndex (append root (path.drop 1)) := by
  unfold getDoc at h
  split at h
  · cases h
  · next hcond =>
    obtain ⟨hslash, hdots⟩ := not_or.mp hcond
    cases hroot : docRootMap port with
    | none =>
        rw [hroot] at h
        cases h
    | some root =>
        rw [hroot] at h
        dsimp only at h
        split at h
        · next hthere =>
          cases h
          exact ⟨not_not.mp hslash, by simpa using hdots, root, rfl, hthere, rfl⟩
        · cases h

/-- **What is returned lies under the document root**, if and only if the path does not start with
two slashes, or what it then names is not there or does lie there. -/
theorem inside_iff (docRootMap : Int → Option Path) (there : Path → Bool) (port : Int)
    (target : Bytes) :
    Inside docRootMap there port target ↔
      ∀ root rest, docRootMap port = some root → pathStr target = slash :: slash :: rest →
        occurs [dot, dot] rest = false → there (orIndex (slash :: rest)) = true →
          Under (orIndex (slash :: rest)) root := by
  constructor
  · intro h root rest hroot hpath hdots hthere
    have hoccurs : occurs [dot, dot] (slash :: slash :: rest) = false := by
      rw [occurs, occurs, hdots]
      rfl
    have hdoc : getDoc docRootMap there port (pathStr target) =
        some (orIndex (slash :: rest),
          (mimeMap.lookup (extension (orIndex (slash :: rest)))).getD defaultMime) := by
      rw [hpath, getDoc, hroot,
        if_neg (by rw [hoccurs]; exact not_or.mpr ⟨fun h => h rfl, by decide⟩)]
      exact if_pos hthere
    obtain ⟨root', hroot', hunder⟩ := h _ hdoc
    rw [hroot, Option.some.injEq] at hroot'
    exact hroot' ▸ hunder
  · intro h doc hdoc
    obtain ⟨hslash, hdots, root, hroot, hthere, hfull⟩ := getDoc_eq_some hdoc
    refine ⟨root, hroot, ?_⟩
    rw [hfull] at hthere ⊢
    have hrest := not_occurs_drop hdots 1
    cases habs : isAbsolute ((pathStr target).drop 1) with
    | false => exact under_orIndex (under_append habs (not_mem_names_of_not_occurs hrest))
    | true =>
        -- the path starts with two slashes
        rw [append_absolute habs] at hthere ⊢
        cases hpath : pathStr target with
        | nil =>
            rw [hpath] at habs
            cases habs
        | cons c path =>
            cases path with
            | nil =>
                rw [hpath] at habs
                cases habs
            | cons c' rest =>
                rw [hpath] at hslash habs hrest hthere
                obtain rfl : c = slash := by simpa [isAbsolute] using hslash
                obtain rfl : c' = slash := by simpa [isAbsolute] using habs
                exact h root rest hroot hpath (not_occurs_cons hrest) hthere

/-- `//etc/passwd`, below `/srv/www`. -/
theorem not_inside_passwd :
    ¬ Inside (fun _ => some (ascii "/srv/www")) (fun p => p == ascii "/etc/passwd") 80
      (ascii "//etc/passwd") := by
  intro h
  have hwww : normal (ascii "/srv/www") = [ascii "srv", ascii "www"] := by decide +kernel
  have hpasswd : normal (ascii "/etc/passwd") = [ascii "etc", ascii "passwd"] := by decide +kernel
  obtain ⟨root, hroot, -, rest, hnormal, -⟩ :=
    h (ascii "/etc/passwd", defaultMime) (by decide +kernel)
  cases hroot
  rw [hwww, hpasswd, List.cons_append, List.cons.injEq] at hnormal
  exact absurd hnormal.1 (by decide +kernel)

end Documents
