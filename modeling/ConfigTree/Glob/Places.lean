/-!
The places in a byte string, each with the answer to one question about the bytes that follow there.
A pattern is matched from its end: the places where the rest of the pattern matches all that follows
give those where the rest with one more token before it does, so that no place is looked at twice.
-/

namespace ConfigTree.Glob

/-- For the start of a byte string and for the place after each of its bytes: whether the
place fits. -/
inductive Places : List UInt8 → Type where
  | last (fits : Bool) : Places []
  | next {byte : UInt8} {bytes : List UInt8} (fits : Bool) (rest : Places bytes) : Places (byte :: bytes)

namespace Places

variable {s : List UInt8}

/-- Whether the first place fits. -/
def fits : Places s → Bool
  | last f => f
  | next f _ => f

/-- The places where `k` holds of the bytes that follow. -/
def ofPred (k : List UInt8 → Bool) : (s : List UInt8) → Places s
  | [] => last (k [])
  | b :: bs => next (k (b :: bs)) (ofPred k bs)

@[simp] theorem fits_ofPred (k : List UInt8 → Bool) (s : List UInt8) : (ofPred k s).fits = k s := by
  cases s <;> rfl

/-- No place at all. -/
def never : (s : List UInt8) → Places s := ofPred fun _ => false

/-- The places that fit by one of two accounts. -/
def or : {s : List UInt8} → Places s → Places s → Places s
  | _, last f, last g => last (f || g)
  | _, next f p, next g q => next (f || g) (or p q)

/-- The places where a byte that satisfies `p` leads to one that fits. -/
def afterOne (p : UInt8 → Bool) : {s : List UInt8} → Places s → Places s
  | _, last _ => last false
  | _, @next b _ _ rest => next (p b && rest.fits) (rest.afterOne p)

/-- The places where any number of bytes that satisfy `p` lead to one that fits. -/
def afterSome (p : UInt8 → Bool) : {s : List UInt8} → Places s → Places s
  | _, last f => last f
  | _, @next b _ f rest =>
    let rest := rest.afterSome p
    next (f || (p b && rest.fits)) rest

/-- The places at or before one that fits. -/
def afterAny (places : Places s) : Places s := places.afterSome fun _ => true

/-- The places where the bytes `bs` lead to one that fits. -/
def afterBytes (bs : List UInt8) (places : Places s) : Places s :=
  bs.foldr (fun b places => places.afterOne (· == b)) places

end Places

end ConfigTree.Glob
