import VirePortal.Server.Routes

/-!
# The static files

`StaticFileHandler` (`landing.go`) makes the name of a file from the decoded path of a request,
compares it with the static directory byte by byte, so that a sibling with a longer name passes, and
leaves the rest to `http.ServeFile`. The multiplexer cleans the escaped path only. Still no file
outside of the directory is opened (`static_contained`), since `http.ServeFile` refuses a path with
an element of two dots.
-/

namespace VirePortal.Server.StaticFiles

open Go Go.ServeMux Routes

instance : DecidablePred Proper := fun _ => inferInstanceAs (Decidable (_ ∧ _ ∧ _))

/-- The pages directory, as `filepath.Abs` returns it. -/
structure PagesDir where
  segments : List Str
  segments_ne : segments ≠ []
  proper : ∀ s ∈ segments, Proper s ∧ 47 ∉ s

/-- `filepath.Clean` of an absolute path. -/
def clean (p : Str) : Str :=
  let cleaned := slashed (cleanSegments (split 47 p))
  if cleaned = [] then [47] else cleaned

/-- `filepath.Join` of an absolute directory and a path. -/
def join (dir path : Str) : Str := clean (if path = [] then dir else dir ++ 47 :: path)

/-- `containsDotDot`. -/
def containsDotDot (v : Str) : Bool := (split 47 v).any fun piece => [46, 46] ∈ split 92 piece

/-- What becomes of a request: a slice out of range, an error, the redirect of an index page, or the
file or the directory that is opened. -/
inductive Opened where
  | panicked
  | notFound
  | badRequest
  | index
  | file (name : Str)
  deriving DecidableEq

/-- `http.ServeFile`. -/
def serveFile (path name : Str) : Opened :=
  if containsDotDot path then .badRequest
  else if (ascii "/index.html").isSuffixOf path then .index
  else .file name

/-- `StaticFileHandler`, for the path of a request. -/
def staticFileHandler (dir : PagesDir) (path : Str) : Opened :=
  let staticDir := join (slashed dir.segments) "static"
  if path.length < (ascii "/static/").length then .panicked
  else
    let fullPath := join staticDir (path.drop (ascii "/static/").length)
    if fullPath.length < staticDir.length ∨ fullPath.take staticDir.length ≠ staticDir then
      .notFound
    else serveFile path fullPath

/-! ### Cleaning without dots -/

/-- The segments that cleaning keeps if there are no two dots. -/
def kept (segments : List Str) : List Str := segments.filter fun s => ¬ (s = [] ∨ s = [46])

/-- Without `..` the segments are kept. -/
theorem foldl_cleanStep_kept {segments : List Str} (h : [46, 46] ∉ segments) (acc : List Str) :
    segments.foldl cleanStep acc = (kept segments).reverse ++ acc := by
  induction segments generalizing acc with
  | nil => rfl
  | cons s segments ih =>
    obtain ⟨hs, hrest⟩ := not_or.1 fun hmem => h (List.mem_cons.2 hmem)
    rw [List.foldl_cons, ih hrest, kept, kept, List.filter_cons, cleanStep]
    by_cases hdrop : s = [] ∨ s = [46]
    · rw [if_pos hdrop, if_neg (by simpa [or_iff_not_imp_left] using hdrop)]
    · rw [if_neg hdrop, if_neg (Ne.symm hs), if_pos (by simpa using hdrop), List.reverse_cons,
        List.append_assoc]
      rfl

/-- What is joined to a directory without two dots is below it. -/
theorem join_slashed {dir : List Str} (hdir : ∀ s ∈ dir, Proper s ∧ 47 ∉ s) (hne : dir ≠ [])
    {path : Str} (hdots : [46, 46] ∉ split 47 path) :
    join (slashed dir) path = slashed (dir ++ kept (split 47 path)) := by
  have hclean : ∀ pieces, [46, 46] ∉ pieces → (∀ s ∈ pieces, 47 ∉ s) →
      clean (slashed (dir ++ pieces)) = slashed (dir ++ kept pieces) := by
    intro pieces hdots hslash
    have hsplit : split 47 (slashed (dir ++ pieces)) = [] :: (dir ++ pieces) := by
      refine split_slashed_self fun s hs => ?_
      exact (List.mem_append.1 hs).elim (fun h => (hdir s h).2) (hslash s)
    have hsegments : cleanSegments ([] :: (dir ++ pieces)) = dir ++ kept pieces := by
      rw [cleanSegments, List.foldl_cons, List.foldl_append, foldl_cleanStep_proper fun s hs =>
        (hdir s hs).1, foldl_cleanStep_kept hdots]
      simp [cleanStep]
    rw [clean, hsplit, hsegments, if_neg]
    obtain ⟨s, rest, rfl⟩ := List.exists_cons_of_ne_nil hne
    exact List.cons_ne_nil _ _
  unfold join
  split_ifs with hempty
  · -- Nothing is joined, as if it were one empty piece.
    subst hempty
    rw [← List.append_nil dir, hclean [] List.not_mem_nil (by simp)]
    simp [kept, split]
  · rw [← slashed_split path, slashed, slashed, ← List.flatMap_append]
    exact hclean _ hdots fun s hs => not_mem_of_mem_split hs

/-! ### The requests of the handler -/

/-- The handler has one pattern. -/
theorem pattern_of_staticFile {mcpHandler mcpDevHandler : Bool} {e : Pattern Str × Target}
    (he : e ∈ routes mcpHandler mcpDevHandler) (htarget : e.2 = .staticFile) :
    e.1 = ⟨none, ["static"], true⟩ := by
  have hall : ((routes true true).filter fun e => e.2 = .staticFile).all
      fun e => e.1 = ⟨none, ["static"], true⟩ := by decide +kernel
  refine of_decide_eq_true (List.all_eq_true.1 hall e (List.mem_filter.2 ⟨?_, by simp [htarget]⟩))
  exact (routes_sublist mcpHandler mcpDevHandler).subset he

/-- The decoded path of a request that the multiplexer gives to the handler. -/
theorem path_of_staticFile {mcpHandler mcpDevHandler : Bool} {method : Str} {u : URL}
    (hurl : u.Accepted)
    (hserved : findHandler (routes mcpHandler mcpDevHandler) method u = .served .staticFile) :
    ∃ rest, u.path = "/static/" ++ rest := by
  rcases findHandler_routes mcpHandler mcpDevHandler method u with ⟨location, hmoved⟩ |
    ⟨e, hfound, htarget⟩
  · rw [hmoved] at hserved
    cases hserved
  · obtain ⟨he, ⟨-, hfits⟩, -⟩ := lookup_sound hfound
    rw [htarget] at hserved
    rw [pattern_of_staticFile he (Routing.served.inj hserved)] at hfits
    obtain ⟨s, rest, hsegments⟩ := hfits
    rw [hurl.path_eq, hsegments]
    exact ⟨s ++ slashed rest, rfl⟩

/-- A path that `http.ServeFile` does not refuse has no element of two dots behind the directory. -/
theorem dots_notMem_of_containsDotDot {rest : Str}
    (h : ¬ containsDotDot ("/static/" ++ rest) = true) :
    [46, 46] ∉ split 47 rest := by
  intro hmem
  refine h (List.any_eq_true.2 ⟨[46, 46], ?_, by decide⟩)
  have hsplit : split 47 ("/static/" ++ rest) = [] :: "static" :: split 47 rest := by
    rw [← split_append_cons (p := "static") (by decide), ← split_cons_self]
    rfl
  rw [hsplit]
  exact List.mem_cons_of_mem _ (.tail _ hmem)

/-- For every request that the multiplexer gives to the handler, however its path is escaped: the
slice of the path is in range, and a file or directory that is opened is the static directory or
below it. -/
theorem static_contained (dir : PagesDir) {mcpHandler mcpDevHandler : Bool} {method : Str} {u : URL}
    (hurl : u.Accepted)
    (hserved : findHandler (routes mcpHandler mcpDevHandler) method u = .served .staticFile) :
    staticFileHandler dir u.path ≠ .panicked ∧ ∀ name, staticFileHandler dir u.path = .file name →
      ∃ rest, name = slashed (dir.segments ++ ascii "static" :: rest) ∧ ∀ s ∈ rest, Proper s ∧
        47 ∉ s := by
  obtain ⟨rest, hrest⟩ := path_of_staticFile hurl hserved
  have hstatic : join (slashed dir.segments) (ascii "static") =
      slashed (dir.segments ++ [ascii "static"]) :=
    join_slashed dir.proper dir.segments_ne (by decide)
  have hproper : ∀ s ∈ dir.segments ++ [ascii "static"], Proper s ∧ 47 ∉ s := by
    intro s hs
    rcases List.mem_append.1 hs with hs | hs
    · exact dir.proper s hs
    · rw [List.mem_singleton.1 hs]
      decide
  unfold staticFileHandler
  dsimp only
  rw [hstatic, hrest, List.drop_left, if_neg (by simp)]
  constructor
  · unfold serveFile
    split_ifs <;> simp
  · intro name hname
    unfold serveFile at hname
    split_ifs at hname with _ hdotdot _
    -- `serveFile` has refused every path with a `..` segment.
    have hdots := dots_notMem_of_containsDotDot hdotdot
    rw [join_slashed hproper (by simp) hdots, List.append_assoc] at hname
    refine ⟨kept (split 47 rest), (Opened.file.inj hname).symm, fun s hs => ?_⟩
    obtain ⟨hs, hkept⟩ := List.mem_filter.1 hs
    obtain ⟨hnil, hdot⟩ := not_or.1 (of_decide_eq_true hkept)
    exact ⟨⟨hnil, hdot, fun heq => hdots (heq ▸ hs)⟩, not_mem_of_mem_split hs⟩

/-- An escaped sibling of the static directory, which passes the comparison of the handler and is
refused. -/
theorem static_contained_sibling :
    let dir : PagesDir := ⟨["pages"], by decide, by decide⟩
    let u : URL := { path := "/static/../static2/x", rawPath := "/static/%2e%2e/static2/x" }
    u.Accepted ∧ findHandler (routes true true) "GET" u = .served .staticFile ∧
      join "/pages/static" (u.path.drop 8) = "/pages/static2/x" ∧
      staticFileHandler dir u.path = .badRequest ∧ staticFileHandler dir u.path ≠ .panicked := by
  intro dir u
  have hurl : u.Accepted := ⟨⟨"/static/%2e%2e/static2/x", by decide⟩, by decide⟩
  have hserved : findHandler (routes true true) "GET" u = .served .staticFile := by decide +kernel
  exact ⟨hurl, hserved, by decide, by decide, (static_contained dir hurl hserved).1⟩

end VirePortal.Server.StaticFiles
