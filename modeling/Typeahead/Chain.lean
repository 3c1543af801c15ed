import Typeahead.Part.Suggestion

/-!
# Chains of parts

Parts are matched one after another, each from where the last match ended, until one does not match.
The first suggestions of those that do are joined.
-/

namespace Typeahead

structure Step where
  index : Int
  found : Option Match

structure Chain where
  steps : List Step
  joined : Option Suggestion

section
variable [Host]

inductive ChainFault
  | query (fault : QueryFault)
  | sum (fault : Json.SumError)

def joinNext (before : Option Suggestion) (next : Suggestion) :
    Except Json.SumError Suggestion :=
  match before with
  | some s => s.join next
  | none => .ok next

def Reported.mapError {ε ε' α : Type} (f : ε → ε') (x : Reported ε α) : Reported ε' α :=
  ⟨x.rejections, x.result.mapError f⟩

/-- Goes on at `index`, after parts with the suggestion `joined`. -/
def chainFrom (value : Text) (joined : Option Suggestion) :
    Int → List Part → Reported ChainFault Chain
  | _, [] => return ⟨[], joined⟩
  | index, p :: rest => do
    match ← (p.matchAt value index).mapError .query with
    | none => return ⟨[⟨index, none⟩], joined⟩
    | some found =>
      let suggestions ← (p.suggestionsAt value index).mapError .query
      let joined ←
        match suggestions.head? with
        | some s => some <$> .ofExcept ((joinNext joined s).mapError .sum)
        | none => pure joined
      let chain ← chainFrom value joined (index + found.consumed) rest
      return ⟨⟨index, some found⟩ :: chain.steps, chain.joined⟩

def chain (parts : List Part) (value : Text) (index : Int) : Reported ChainFault Chain :=
  chainFrom value none index parts

def ChainFault.message : ChainFault → Text
  | query fault => fault.message
  | sum fault => fault.message

def ChainFault.errorClass : ChainFault → ErrorClass
  | query fault => fault.errorClass
  | sum fault => fault.errorClass

end

end Typeahead
