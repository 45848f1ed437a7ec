import LightClient.Block.PublicKey
import LightClient.Proofs.Text.Hex

/-!
Public keys and their text. Main statement: a key is read back from its text.
-/

namespace LightClient.PublicKey

theorem curveOf_text (curve : Curve) : curveOf curve.text = .ok curve := by
  cases curve with
  | k1 => rfl
  | r1 => rfl

/-- The name of a curve ends before the colon. -/
theorem takeWhile_text (curve : Curve) (digits : List Char) :
    (curve.text.toList ++ ':' :: digits).takeWhile (· ≠ ':') = curve.text.toList := by
  cases curve with
  | k1 => rfl
  | r1 => rfl

/-- Behind the name of a curve and a colon stands the point. -/
theorem ofText_append (curve : Curve) (digits : String) :
    ofText (curve.text ++ ":" ++ digits) =
      ((Hex.decode digits).mapError .hex >>= ofPoint curve) := by
  have hlist : (curve.text ++ ":" ++ digits).toList =
      curve.text.toList ++ ':' :: digits.toList := by
    rw [String.toList_append, String.toList_append, List.append_assoc]
    rfl
  rw [ofText, hlist]
  simp only [takeWhile_text, List.drop_left, String.ofList_toList, curveOf_text]
  rfl

theorem ofText_text (key : PublicKey) : ofText key.text = .ok key := by
  rw [text, ofText_append, Hex.decode_encode]
  exact dif_pos key.length_point

end LightClient.PublicKey
