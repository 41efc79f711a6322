import VisionApp.Geometry.Segments
import VisionApp.Geometry.Transforms
import VisionApp.Lib.ClosedWalks

/-!
# Polygons

The ray-casting test of a point, with the policy for a point on an edge. The
polygon is a closed walk along its edges: the test counts the edges that the
ray to the right meets, so it does not depend on the vertex the walk begins
with nor on its direction. The division is guarded by the test of the heights.
-/

set_option autoImplicit false

namespace VisionApp.Geometry
open VisionApp.Contracts ExceptFold

inductive BoundaryPolicy where
  | inside
  | outside
  deriving DecidableEq, Repr

/-- The edges of a closed polygon, from each vertex to the next one. -/
def edges (vertices : List PointN) : List (PointN × PointN) := vertices.zip (vertices.rotate 1)

def rayCrosses (point : PointN) (e : PointN × PointN) : Except Failure Bool := do
  if decide (point.y < e.1.y) != decide (point.y < e.2.y) then
    let offset ← divide ((point.y-e.1.y)*(e.2.x-e.1.x)) (e.2.y-e.1.y)
    return decide (point.x < e.1.x+offset)
  else return false

def pointInPolygon (point : PointN) (vertices : List PointN)
    (boundaryPolicy : BoundaryPolicy := .inside) : Except Failure Bool :=
  if vertices.length < 3 then .error (.valueError "polygon must have at least three vertices")
  else if (edges vertices).any (fun e => pointOnSegment point e.1 e.2) then
    .ok (boundaryPolicy == .inside)
  else (edges vertices).foldlM (fun inside e => do
    let crosses ← rayCrosses point e
    return xor inside crosses) false

theorem edges_steps (vertices : List PointN) : edges vertices = ClosedWalks.steps vertices := rfl

/-- The ray of the point meets the edge. -/
def meetsRay (point : PointN) (e : PointN × PointN) : Bool :=
  decide (PlaneSegments.RayMeets (coords point) (coords e.1) (coords e.2))

/-- Only an edge whose ends differ in height is divided by, so the division
never fails. -/
theorem rayCrosses_ok (point : PointN) (e : PointN × PointN) :
    rayCrosses point e = .ok (meetsRay point e) := by
  have hguard : (decide (point.y < e.1.y) != decide (point.y < e.2.y)) = true ↔
      PlaneSegments.Straddles (coords point) (coords e.1) (coords e.2) := by
    simp only [PlaneSegments.Straddles, coords, bne_iff_ne, ne_eq, decide_eq_decide]
  unfold rayCrosses meetsRay
  by_cases h : PlaneSegments.Straddles (coords point) (coords e.1) (coords e.2)
  · have hd : e.2.y-e.1.y ≠ 0 := sub_ne_zero.mpr h.ne
    rw [if_pos (hguard.mpr h), divide, if_neg hd, ok_bind]
    simp only [PlaneSegments.rayMeets_iff, h, true_and]
    rfl
  · rw [if_neg (mt hguard.mp h)]
    simp only [PlaneSegments.RayMeets, h, false_and, decide_false]
    rfl

theorem foldlM_toggle (point : PointN) (es : List (PointN × PointN)) (inside : Bool) :
    es.foldlM (fun inside e => do
      let crosses ← rayCrosses point e
      return xor inside crosses) inside =
      .ok (es.foldl (fun inside e => xor inside (meetsRay point e)) inside) := by
  induction es generalizing inside with
  | nil => rfl
  | cons e es ih =>
    rw [List.foldlM_cons, rayCrosses_ok]
    exact ih _

/-- What the test answers: the policy for a point near an edge, else whether
the ray meets an odd number of edges. -/
theorem pointInPolygon_answer (point : PointN) {vertices : List PointN} (h : 3 ≤ vertices.length)
    (policy : BoundaryPolicy) : pointInPolygon point vertices policy =
      .ok (if (edges vertices).any (fun e => pointOnSegment point e.1 e.2) then policy == .inside
        else decide (Odd ((edges vertices).countP (meetsRay point)))) := by
  rw [pointInPolygon, if_neg (not_lt.mpr h), foldlM_toggle, ClosedWalks.foldl_toggle, Bool.false_xor]
  split <;> rfl

theorem near_undirected (point : PointN) :
    ClosedWalks.Undirected fun e : PointN × PointN => pointOnSegment point e.1 e.2 :=
  fun e => pointOnSegment_swap point e.1 e.2 tolerance

theorem meetsRay_undirected (point : PointN) : ClosedWalks.Undirected (meetsRay point) := fun e =>
  decide_eq_decide.mpr (PlaneSegments.rayMeets_symm (coords point) (coords e.2) (coords e.1))

/-- Two writings of one polygon have the same answers. -/
theorem pointInPolygon_sameWalk (point : PointN) {vs ws : List PointN} (hv : 3 ≤ vs.length)
    (hlen : ws.length = vs.length) (h : ClosedWalks.SameWalk ws vs) (policy : BoundaryPolicy) :
    pointInPolygon point ws policy = pointInPolygon point vs policy := by
  rw [pointInPolygon_answer point hv, pointInPolygon_answer point (hlen ▸ hv), edges_steps, edges_steps,
    h.any_eq (near_undirected point), h _ (meetsRay_undirected point)]

theorem pointInPolygon_edge {point : PointN} {vertices : List PointN} (h : 3 ≤ vertices.length)
    {e : PointN × PointN} (he : e ∈ edges vertices)
    (hon : coords point ∈ segment ℚ (coords e.1) (coords e.2)) (policy : BoundaryPolicy) :
    pointInPolygon point vertices policy = .ok (policy == .inside) := by
  have htol : 0 ≤ tolerance := by norm_num [tolerance]
  have hany : (edges vertices).any (fun e => pointOnSegment point e.1 e.2) = true :=
    List.any_eq_true.mpr ⟨e, he, pointOnSegment_of_mem htol hon⟩
  rw [pointInPolygon_answer point h, if_pos hany]

/-- The test does not depend on how the polygon is written: on the vertex it
begins with or on its direction. It always answers, and for a point of an edge
as the policy says. -/
theorem pointInPolygon_unordered (point : PointN) {vertices : List PointN} (h : 3 ≤ vertices.length)
    (policy : BoundaryPolicy) :
    (∀ k, pointInPolygon point (vertices.rotate k) policy = pointInPolygon point vertices policy) ∧
    pointInPolygon point vertices.reverse policy = pointInPolygon point vertices policy ∧
    (∃ inside, pointInPolygon point vertices policy = .ok inside) ∧
    ∀ e ∈ edges vertices, coords point ∈ segment ℚ (coords e.1) (coords e.2) →
      pointInPolygon point vertices policy = .ok (policy == .inside) := by
  refine ⟨fun k => ?_, ?_, ⟨_, pointInPolygon_answer point h policy⟩, ?_⟩
  · exact pointInPolygon_sameWalk point h (List.length_rotate _ _) (ClosedWalks.sameWalk_rotate vertices k) policy
  · exact pointInPolygon_sameWalk point h List.length_reverse (ClosedWalks.sameWalk_reverse vertices) policy
  · intro e he hon
    exact pointInPolygon_edge h he hon policy

def baseLeft : PointN := ⟨1/8, 1/8, by norm_num⟩

def baseRight : PointN := ⟨7/8, 1/8, by norm_num⟩

def triangle : List PointN := [baseLeft, baseRight, ⟨1/8, 7/8, by norm_num⟩]

def midBase : PointN := ⟨1/2, 1/8, by norm_num⟩

theorem pointInPolygon_unordered_triangle :
    pointInPolygon midBase (triangle.rotate 2) .outside = pointInPolygon midBase triangle .outside ∧
    pointInPolygon midBase triangle.reverse .outside = pointInPolygon midBase triangle .outside ∧
    pointInPolygon midBase triangle .outside = .ok false := by
  have h := pointInPolygon_unordered midBase (show 3 ≤ triangle.length by decide) .outside
  refine ⟨h.1 2, h.2.1, ?_⟩
  have hedge : (baseLeft, baseRight) ∈ edges triangle := .head _
  refine h.2.2.2 _ hedge ((PlaneSegments.onSegment_iff _ _ _).mp ?_)
  norm_num [PlaneSegments.OnSegment, PlaneSegments.InBox, PlaneSegments.cross, coords, midBase, baseLeft, baseRight]

end VisionApp.Geometry
