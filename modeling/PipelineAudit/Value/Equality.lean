import PipelineAudit.Value.Basic

/-!
# Deciding equality of values

Values are plain data, so it can be decided whether two of them are the same data. This is finer
than `Value.same`, under which the integer one, the truth value true and the decimal `1.0` are
equal.
-/

namespace PipelineAudit.Value

mutual

/-- Decides whether two values are the same data. -/
def decEq : (a b : Value) → Decidable (a = b)
  | null, b => match b with
    | null => isTrue rfl
    | bool _ | int _ | float _ | str _ | bytes _ | date _ | moment _ | seq _ | pair _ _ | map _ =>
      isFalse nofun
  | bool x, b => match b with
    | bool y => decidable_of_iff (x = y) (by simp)
    | null | int _ | float _ | str _ | bytes _ | date _ | moment _ | seq _ | pair _ _ | map _ =>
      isFalse nofun
  | int x, b => match b with
    | int y => decidable_of_iff (x = y) (by simp)
    | null | bool _ | float _ | str _ | bytes _ | date _ | moment _ | seq _ | pair _ _ | map _ =>
      isFalse nofun
  | float x, b => match b with
    | float y => decidable_of_iff (x = y) (by simp)
    | null | bool _ | int _ | str _ | bytes _ | date _ | moment _ | seq _ | pair _ _ | map _ =>
      isFalse nofun
  | str x, b => match b with
    | str y => decidable_of_iff (x = y) (by simp)
    | null | bool _ | int _ | float _ | bytes _ | date _ | moment _ | seq _ | pair _ _ | map _ =>
      isFalse nofun
  | bytes x, b => match b with
    | bytes y => decidable_of_iff (x = y) (by simp)
    | null | bool _ | int _ | float _ | str _ | date _ | moment _ | seq _ | pair _ _ | map _ =>
      isFalse nofun
  | date x, b => match b with
    | date y => decidable_of_iff (x = y) (by simp)
    | null | bool _ | int _ | float _ | str _ | bytes _ | moment _ | seq _ | pair _ _ | map _ =>
      isFalse nofun
  | moment x, b => match b with
    | moment y => decidable_of_iff (x = y) (by simp)
    | null | bool _ | int _ | float _ | str _ | bytes _ | date _ | seq _ | pair _ _ | map _ =>
      isFalse nofun
  | seq x, b => match b with
    | seq y => @decidable_of_iff _ (x = y) (by simp) (decEqItems x y)
    | null | bool _ | int _ | float _ | str _ | bytes _ | date _ | moment _ | pair _ _ | map _ =>
      isFalse nofun
  | pair x y, b => match b with
    | pair z w =>
      @decidable_of_iff _ (x = z ∧ y = w) (by simp) (@instDecidableAnd _ _ (decEq x z) (decEq y w))
    | null | bool _ | int _ | float _ | str _ | bytes _ | date _ | moment _ | seq _ | map _ =>
      isFalse nofun
  | map x, b => match b with
    | map y => @decidable_of_iff _ (x = y) (by simp) (decEqEntries x y)
    | null | bool _ | int _ | float _ | str _ | bytes _ | date _ | moment _ | seq _ | pair _ _ =>
      isFalse nofun
termination_by structural a => a

/-- Decides whether two lists of values are the same data. -/
def decEqItems : (a b : List Value) → Decidable (a = b)
  | [], [] => isTrue rfl
  | [], _ :: _ => isFalse nofun
  | _ :: _, [] => isFalse nofun
  | a :: as, b :: bs =>
    @decidable_of_iff _ (a = b ∧ as = bs) (by simp)
      (@instDecidableAnd _ _ (decEq a b) (decEqItems as bs))
termination_by structural a => a

/-- Decides whether two lists of entries are the same data. -/
def decEqEntries : (a b : List (Value × Value)) → Decidable (a = b)
  | [], [] => isTrue rfl
  | [], _ :: _ => isFalse nofun
  | _ :: _, [] => isFalse nofun
  | a :: as, b :: bs =>
    @decidable_of_iff _ (a = b ∧ as = bs) (by simp)
      (@instDecidableAnd _ _ (decEqEntry a b) (decEqEntries as bs))
termination_by structural a => a

/-- Decides whether two entries are the same data. -/
def decEqEntry : (a b : Value × Value) → Decidable (a = b)
  | (a, b), (c, d) =>
    @decidable_of_iff _ (a = c ∧ b = d) (by simp) (@instDecidableAnd _ _ (decEq a c) (decEq b d))
termination_by structural a => a

end

instance : DecidableEq Value := decEq

end PipelineAudit.Value
