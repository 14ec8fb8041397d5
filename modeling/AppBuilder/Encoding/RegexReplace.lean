import AppBuilder.Encoding.Regex

/-! Replacing what an expression matches. -/
namespace AppBuilder.Encoding
namespace Regex

variable {α : Type} (isWord : α → Bool)

/-- `text.replace(r, replacement)` for a global expression, from a position with `n` more steps to
go. After a match that takes nothing the next character stays. -/
def replaceFrom (r : Regex α) (replacement : List α) : ℕ → Position α → List α
  | 0, x => x.2
  | _ + 1, (before, []) =>
    match (run isWord r (before, [])).head? with
    | none => []
    | some _ => replacement
  | n + 1, (before, c :: rest) =>
    match (run isWord r (before, c :: rest)).head? with
    | none => c :: replaceFrom r replacement n (isWord c, rest)
    | some y =>
      if y.2.length ≤ rest.length then replacement ++ replaceFrom r replacement n y
      else replacement ++ c :: replaceFrom r replacement n (isWord c, rest)

def replaceAt (r : Regex α) (replacement : List α) (x : Position α) : List α :=
  replaceFrom isWord r replacement (x.2.length + 1) x

/-- `text.replace(r, replacement)` -/
def replaceAll (r : Regex α) (replacement text : List α) : List α :=
  replaceAt isWord r replacement (false, text)

end Regex
end AppBuilder.Encoding
