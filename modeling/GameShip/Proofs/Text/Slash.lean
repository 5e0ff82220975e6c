import GameShip.Disk
import Mathlib.Data.String.Basic

/-!
# The parts of a path

To cut a text at its slashes is to cut the list of its characters there (`splitOn_slash`), which is
what can be evaluated.
-/

namespace GameShip

/-- What is left of a text is cut when it is known where the piece begins that is being read. -/
theorem splitOnAux_slash (l m r : List Char) (pieces : List String) :
    (String.ofList (l ++ m ++ r)).splitOnAux "/" ⟨String.utf8Len l⟩
        ⟨String.utf8Len l + String.utf8Len m⟩ 0 pieces =
      pieces.reverse ++ (List.splitOnPPrepend (· == '/') r m.reverse).map String.ofList := by
  induction r generalizing l m pieces with
  | nil =>
    have hend : String.Pos.Raw.atEnd (String.ofList (l ++ m ++ []))
        ⟨String.utf8Len l + String.utf8Len m⟩ = true := by
      simpa using String.atEnd_of_valid (l ++ m) []
    rw [String.splitOnAux, if_pos hend]
    simpa using String.extract_of_valid l m []
  | cons c r ih =>
    have hend : ¬String.Pos.Raw.atEnd (String.ofList (l ++ m ++ c :: r))
        ⟨String.utf8Len l + String.utf8Len m⟩ = true := by
      simpa using String.atEnd_of_valid (l ++ m) (c :: r)
    have hget : String.Pos.Raw.get (String.ofList (l ++ m ++ c :: r))
        ⟨String.utf8Len l + String.utf8Len m⟩ = c := by
      simpa using String.get_of_valid (l ++ m) (c :: r)
    have hnext : String.Pos.Raw.next (String.ofList (l ++ m ++ c :: r))
        ⟨String.utf8Len l + String.utf8Len m⟩ =
          ⟨String.utf8Len l + String.utf8Len m + c.utf8Size⟩ := by
      simpa using String.next_of_valid (l ++ m) c r
    have hslash : String.Pos.Raw.get "/" 0 = '/' := by decide
    rw [String.splitOnAux, if_neg hend, hget, hslash]
    by_cases hc : c = '/'
    · -- the piece ends here, and the next one begins behind the slash
      subst hc
      have hrest := ih (l ++ m ++ ['/']) [] (String.ofList m :: pieces)
      have hpiece := String.extract_of_valid l m ('/' :: r)
      have hwidth : '/'.utf8Size = 1 := rfl
      have hone : String.Pos.Raw.next "/" 0 = ⟨1⟩ := by decide
      have hback (n : Nat) : (⟨n + 1⟩ : String.Pos.Raw).unoffsetBy ⟨1⟩ = ⟨n⟩ := rfl
      have hlast : String.Pos.Raw.atEnd "/" ⟨1⟩ = true := by decide
      rw [if_pos (beq_self_eq_true '/'), hnext, hone, hwidth]
      dsimp only
      rw [if_pos hlast, hback, hpiece]
      simpa [List.splitOnPPrepend_cons_eq_if, hwidth, Nat.add_assoc] using hrest
    · have hrest := ih l (m ++ [c]) pieces
      have hback (n : Nat) : (⟨n⟩ : String.Pos.Raw).unoffsetBy 0 = ⟨n⟩ := rfl
      rw [if_neg (by simpa using hc), hback, hnext]
      simpa [List.splitOnPPrepend_cons_eq_if, hc, Nat.add_assoc] using hrest

theorem splitOn_slash (s : String) :
    s.splitOn "/" = (List.splitOnP (· == '/') s.toList).map String.ofList := by
  have h := splitOnAux_slash [] [] s.toList []
  unfold String.splitOn
  simpa using h

end GameShip
