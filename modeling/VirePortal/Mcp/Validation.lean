import VirePortal.Collections.FirstWins
import VirePortal.Mcp.Catalog

/-!
# What is left of a catalog

`ValidateCatalog` marks a name as seen only when it keeps its entry, so its loop is the filter to
the first valid entry of each name (`validateCatalog_eq`), and has the laws of that filter.
-/

namespace VirePortal.Mcp

open Go Collections

/-- `ValidateCatalogTool` returns no error. -/
def validTool (ct : CatalogTool) : Bool := validateCatalogTool ct = none

/-- A tool is valid when no error is found. -/
theorem validTool_iff {ct : CatalogTool} : validTool ct = true ↔ validateCatalogTool ct = none :=
  decide_eq_true_iff

/-- The loop appends what it keeps to what it kept before. -/
theorem validateLoop_eq (catalog : List CatalogTool) (seen : List Str) (valid : List CatalogTool) :
    validateLoop catalog seen valid = valid ++ firstWins validTool CatalogTool.name seen
      catalog := by
  induction catalog generalizing seen valid with
  | nil => exact (List.append_nil valid).symm
  | cons ct catalog ih =>
    rw [validateLoop]
    split_ifs with herr hseen
    · have hskip : ¬ (validTool ct = true ∧ ct.name ∉ seen) := fun h => herr (validTool_iff.1 h.1)
      rw [ih, firstWins_cons_of_not hskip]
    · rw [ih, firstWins_cons_of_not fun h => h.2 hseen]
    · rw [ih, firstWins_cons_of_new (validTool_iff.2 (not_not.1 herr)) hseen, List.append_assoc]
      rfl

/-- The validation is first wins. -/
theorem validateCatalog_eq (catalog : List CatalogTool) :
    validateCatalog catalog = firstWins validTool CatalogTool.name [] catalog :=
  validateLoop_eq catalog [] []

/-- The entry passes the checks, and no earlier one of the catalog passes them with its name. -/
def FirstValid (catalog : List CatalogTool) (entry : CatalogTool × ℕ) : Prop :=
  validateCatalogTool entry.1 = none ∧
    ∀ earlier ∈ catalog.take entry.2, validateCatalogTool earlier = none →
      earlier.name ≠ entry.1.name

instance (catalog : List CatalogTool) (entry : CatalogTool × ℕ) :
    Decidable (FirstValid catalog entry) :=
  inferInstanceAs (Decidable (_ ∧ _))

/-- The winners are the first valid tools. -/
theorem first_iff_firstValid (catalog : List CatalogTool) (entry : CatalogTool × ℕ) :
    First validTool CatalogTool.name catalog entry ↔ FirstValid catalog entry := by
  simp only [First, FirstValid, validTool_iff]

/-- `ValidateCatalog` keeps the first valid entry of each name, in the order of the catalog: names
are distinct, every name with a valid entry survives, and an invalid entry has no effect. It may be
applied again, and to the start of a catalog first. -/
theorem validateCatalog_firstValid (xs ys : List CatalogTool) :
    validateCatalog xs = (xs.zipIdx.filter fun entry => FirstValid xs entry).map Prod.fst ∧
    ((validateCatalog xs).map CatalogTool.name).Nodup ∧
    (∀ ct ∈ xs, validateCatalogTool ct = none →
      ct.name ∈ (validateCatalog xs).map CatalogTool.name) ∧
    (∀ ct, validateCatalogTool ct ≠ none →
      validateCatalog (xs ++ ct :: ys) = validateCatalog (xs ++ ys)) ∧
    validateCatalog (validateCatalog xs) = validateCatalog xs ∧
    validateCatalog (xs ++ ys) = validateCatalog (validateCatalog xs ++ ys) := by
  simp only [validateCatalog_eq]
  refine ⟨?_, nodup_map_firstWins, fun ct hct hvalid => ?_, fun ct hct => ?_, firstWins_idem,
    firstWins_append_left.symm⟩
  · rw [firstWins_eq_filter]
    simp only [first_iff_firstValid]
  · exact mem_map_firstWins.2 ⟨List.not_mem_nil, ct, hct, validTool_iff.2 hvalid, rfl⟩
  · exact firstWins_append_cons_of_not fun h => hct (validTool_iff.1 h)

end VirePortal.Mcp
