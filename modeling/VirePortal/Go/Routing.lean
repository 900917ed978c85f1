import VirePortal.Go.Templates

/-!
# Directories of a server

`ServeMux` redirects a request whose escaped path is not clean (`cleanPath`), so that what it routes
has neither dot segments nor empty ones in front of the decoding. `URL.Below` says that a URL names
something in a directory once a server has cleaned its path: the cleaned path goes on behind the
segments of the directory, or ends in a slash there. `PathBelow` is the same about the text of a
path.
-/

namespace VirePortal.Go

/-- `cleanPath` of `net/http`: the path cleaned, with the slash at its end if it had one. -/
def cleanPath (p : Str) : Str :=
  let rooted := if p.head? = some 47 then p else 47 :: p
  let clean := slashed (cleanSegments (split 47 rooted))
  if clean = [] then [47] else if rooted.getLast? = some 47 then clean ++ [47] else clean

/-- `ServeMux` routes a URL to a handler and does not redirect it. -/
def URL.Routed (u : URL) : Prop := cleanPath u.escapedPath = u.escapedPath

/-- A cleaned path ends in a slash when its last segment was empty or of dots. -/
def endsSlash (segments : List Str) : Bool :=
  match segments.getLast? with
  | some s => s = [] || s = [46] || s = [46, 46]
  | none => false

/-- What a URL names is in the directory. -/
def URL.Below (dir : List Str) (u : URL) : Prop :=
  ∃ rest, u.resource = some (dir ++ rest) ∧ (rest ≠ [] ∨ endsSlash (split 47 u.escapedPath) = true)

/-- What the text of a path names is in the directory. A text with a byte that cannot stand in a
path is decoded before it is cleaned, since it is encoded anew on the wire. Another is cleaned
first, and its segments are decoded. -/
def PathBelow (dir : List Str) (p : Str) : Prop :=
  if validEncoded p .path then
    ∃ rest, (cleanSegments (split 47 p)).mapM (unescape .pathSegment) = some (dir ++ rest) ∧
      (rest ≠ [] ∨ endsSlash (split 47 p) = true)
  else
    ∃ t rest, unescape .path p = some t ∧ cleanSegments (split 47 t) = dir ++ rest ∧
      (rest ≠ [] ∨ endsSlash (split 47 t) = true)

/-- The end of a path does not care whether the segments are encoded. -/
theorem endsSlash_map_escape (segments : List Str) :
    endsSlash (segments.map (escape .path)) = endsSlash segments := by
  have hiff : ∀ s t : Str, escape .path t = t → (escape .path s = t ↔ s = t) := by
    intro s t ht
    constructor
    · exact fun h => escape_injective (h.trans ht.symm)
    · exact fun h => h ▸ ht
  unfold endsSlash
  rw [List.getLast?_map]
  cases segments.getLast? with
  | none => rfl
  | some s =>
    show (decide (escape .path s = []) || decide (escape .path s = [46]) ||
      decide (escape .path s = [46, 46])) = _
    simp only [hiff s [] rfl, hiff s [46] (by decide), hiff s [46, 46] (by decide)]

/-- The directory of a URL, from the text that its path was set to. -/
theorem URL.below_iff {u v : URL} {p : Str} (h : u.setPath p = some v) (hp : p.head? = some 47)
    (dir : List Str) : v.Below dir ↔ PathBelow dir p := by
  obtain ⟨hdecode, hescaped⟩ := URL.escapedPath_eq h hp
  unfold URL.Below PathBelow URL.resource
  rw [hescaped]
  split_ifs
  · exact Iff.rfl
  · rw [split_escape, cleanSegments_map_escape, mapM_unescape_escape, endsSlash_map_escape]
    simp only [Option.some.injEq]
    constructor
    · rintro ⟨rest, hrest, hend⟩
      exact ⟨v.path, rest, hdecode, hrest, hend⟩
    · rintro ⟨t, rest, ht, hrest, hend⟩
      obtain rfl := Option.some.inj (hdecode.symm.trans ht)
      exact ⟨rest, hrest, hend⟩

end VirePortal.Go
