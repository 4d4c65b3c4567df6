import HistoryKeeper.Keeper.Service
import HistoryKeeper.Store.File

/-!
# Processes

A `Process` is the program while it runs: what its main thread still does, and the keeper with the calls
that the main thread has made. The keeper has a thread of its own, so who acts next is open;
`Process.seeThrough` is the schedule in which the keeper acts only while the main thread waits or
sleeps.
-/

namespace HistoryKeeper.CommandLine

/-- What the main thread still does: it makes a call and goes on by what that brings, or it sleeps, or it
exits. -/
inductive Thread where
  | calling (call : Call) (next : Except CacheError Reply → Thread)
  | sleeping (time : Duration) (next : Thread)
  | exiting (code : Nat) (stdout stderr : String)

/-- The call that is made next. -/
def Thread.calls : Thread → List Call
  | calling call _ => [call]
  | _ => []

structure Process where
  thread : Thread
  service : Service FileStore Disk

namespace Process

/-- The main thread begins with what it does next. -/
def begin (thread : Thread) (service : Service FileStore Disk) : Process :=
  { thread, service := { service with calls := service.calls ++ thread.calls } }

/-- The number of the call that was made last. -/
def lastCall (service : Service FileStore Disk) : CallId :=
  service.calls.length - 1

/-- Let the main thread act for as long as it can, and the keeper when it waits. A call that waits for
something that does not come is where this ends. -/
def finish : Thread → Service FileStore Disk → Process
  | .calling call next, s =>
    let i := lastCall s
    let s := s.completeWithin (s.effort + 16) i
    match s.result? i with
    | some result => finish (next result) { s with calls := s.calls ++ (next result).calls }
    | none => { thread := .calling call next, service := s }
  | .sleeping time next, s =>
    let s := s.pass time
    finish next { s with calls := s.calls ++ next.calls }
  | .exiting code stdout stderr, s => { thread := .exiting code stdout stderr, service := s }

def seeThrough (p : Process) : Process :=
  finish p.thread p.service

end Process

end HistoryKeeper.CommandLine
