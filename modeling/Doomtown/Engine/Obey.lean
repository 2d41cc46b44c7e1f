import Doomtown.Engine.Activate
import Doomtown.Engine.Raise

/-!
# Obeying scripts

How the engine carries out the orders of a script. A script runs inside a step, so what it queues
waits until the step has finished, and no prompt can be answered meanwhile.
-/

namespace Doomtown

open Play

/-- Carry out an order of a script. -/
def Order.carryOut : (o : Order) → Play Engine o.Reply
  | gain p n => Engine.onBoard (Board.gain p n)
  | spend p n => Engine.onBoard (Board.spend p n)
  | modifyRank p n => Engine.onBoard (Board.modifyPlayer p (·.modifyRank n))
  | setCheatin p b => Engine.onBoard (Board.modifyPlayer p ({ · with cheatin := b }))
  | restrict p r => Engine.onBoard (Board.modifyPlayer p (·.restrict r))
  | boot c => Engine.onBoard (Board.boot c)
  | unboot c => Engine.onBoard (Board.unboot c)
  | sendHome c => Engine.onBoard (Board.sendHome c)
  | addControl c n =>
    Engine.onBoard (Board.modifyCard c fun card => { card with control := card.control + n })
  | setInfluence c n => Engine.onBoard (Board.modifyCard c ({ · with influence := n }))
  | setBlank c b => Engine.onBoard (Board.modifyCard c ({ · with blank := b }))
  | setController c p => Engine.onBoard (Board.modifyCard c ({ · with controller := p }))
  | setPhase phase =>
    Engine.onBoard (change fun b => { b with round := { b.round with phase := phase } })
  | setWindow w => Engine.onBoard (change fun b => { b with round := { b.round with window := w } })
  | setActivePlayer p =>
    Engine.onBoard (change fun b => { b with round := { b.round with activePlayer := p } })
  | shift c l => discard (Engine.onBoard (Board.moveCard c l))
  | move c l => discard (Engine.moveCard c l)
  | message template args => Engine.message template args []
  | note line => log (.plain .normal line)
  | register a => Engine.register a
  | unregister a => Engine.unregister a
  | activate a p => Engine.activate a p
  | retract a p => Engine.retract a p
  | respond _ _ => answer false
  | resume => do
    match (← look).queue.frontPrompt? with
    | some p => Engine.awaitPrompt p
    | none => answer .idle
  | withdraw i => Engine.withdraw i
  | beginRound => Engine.beginRound

/-- Run a script inside a step. -/
def Script.run : Script → Play Engine Unit
  | done => answer ()
  | fail e => Play.fail e
  | look next => do (next (← Play.view Engine.sight)).run
  | order o next => do (next (← attempt o.carryOut)).run
  | raise event change next => do
    Engine.raise event (.script change)
    next.run
  | queue label body next => do (next (← Engine.post (.task label body))).run
  | prompt player title buttons source answers next => do
    (next (← Engine.post (.prompt ⟨⟨title, buttons, source⟩, player, .script answers⟩))).run

end Doomtown
