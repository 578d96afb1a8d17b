import CurvePlot.Graph.Response

/-!
# Answering requests

Every request gets a response. A request that is not valid, and a body that is no request,
get one that says so.
-/

namespace CurvePlot.Graph

/-- Answer a request with a given sampler. -/
def answerWith (s : Sampler) (r : Request) : Logged Response :=
  match r.task with
  | .ok task => Response.ofResult <$> s.perform task
  | .error cause => do
    Logged.note .debug ("rejected graph request: " ++ cause.message)
    return .failure cause.message

/-- **Answer a request**. -/
def answer (r : Request) : Logged Response :=
  answerWith .standard r

/-- Answer a request that is still a body. -/
def answerJson (body : String) : Logged Response :=
  match Request.ofJson body with
  | .ok r => answer r
  | .error cause => return .failure cause.message

end CurvePlot.Graph
