import StyleSkeleton.Generator.Chain
import StyleSkeleton.Proofs.Generator.Sessions

/-! # Chains follow sessions

A chain hands its generator on and is over with the first refusal, while a session keeps its
generator and goes on.  Up to that refusal both come to the same generators, so a chain answers what
the generator of a session renders after each call (`answers_follow_session`).

The non-trivial ingredient is `perform_cases`: a link of a chain is refused exactly if the session
refuses the same call, and otherwise both have the same generator afterwards.
-/

namespace StyleSkeleton

open Session (respond)

namespace Chain

/-! ## One call -/

variable {generator : Generator} {call : Call} {calls : List Call} {place : Nat} {error : SettingError}

/-- What follows on a refusal is not answered any more. -/
example : answers (start none) [.flat true, .brace "own", .css] = [.ok "", .error (.unknownBrace "own")] := by
  cbv

end Chain

end StyleSkeleton
