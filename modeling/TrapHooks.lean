import TrapHooks.Device.FrameBuffer
import TrapHooks.Main
import TrapHooks.Scenario.Play
import TrapHooks.Proofs.Chunk.Reading
import TrapHooks.Proofs.Chunk.RoundTrip
import TrapHooks.Proofs.Chunk.Grammar
import TrapHooks.Proofs.Chunk.Phases
import TrapHooks.Proofs.Chunk.Decoding
import TrapHooks.Proofs.Run.Machine
import TrapHooks.Proofs.Run.Change
import TrapHooks.Proofs.Run.Permits
import TrapHooks.Proofs.Returns.Marks
import TrapHooks.Proofs.Returns.Conservation
import TrapHooks.Proofs.Run.Guards
import TrapHooks.Proofs.Run.Surrounding
import TrapHooks.Proofs.Session.Lookup
import TrapHooks.Proofs.Session.RoundTrip
import TrapHooks.Proofs.Session.Memory
import TrapHooks.Proofs.Session.Reload
import TrapHooks.Proofs.Session.Restart
import TrapHooks.Proofs.Session.Naming
import TrapHooks.Proofs.Session.Replacement
import TrapHooks.Proofs.Run.Requests
import TrapHooks.Proofs.Session.Telling
import TrapHooks.Proofs.Session.Marking
import TrapHooks.Proofs.Run.Span
import TrapHooks.Proofs.Waits.Withdrawal
import TrapHooks.Proofs.Waits.Nesting
import TrapHooks.Proofs.Session.Refusal
import TrapHooks.Proofs.Run.History
import TrapHooks.Proofs.Waits.Errands
import TrapHooks.Proofs.Waits.Posting
import TrapHooks.Proofs.Waits.Restraint
import TrapHooks.Proofs.Waits.Delivery
import TrapHooks.Proofs.Session.Mending
import TrapHooks.Proofs.Device.Memory
import TrapHooks.Proofs.Device.Redraw
import TrapHooks.Proofs.Hooks.Brackets
import TrapHooks.Proofs.Hooks.Measuring
import TrapHooks.Proofs.Waits.Sources
import TrapHooks.Proofs.Hooks.Loading
import TrapHooks.Proofs.Waits.Shortfall
import TrapHooks.Proofs.Waits.Timeouts
import TrapHooks.Proofs.Session.Independence
import TrapHooks.Proofs.Returns.Order
import TrapHooks.Proofs.GuestState.Versions
import TrapHooks.Proofs.Waits.Launching
import TrapHooks.Proofs.Device.Bounds
import TrapHooks.Proofs.Hooks.Remembering
import TrapHooks.Proofs.Returns.Counting
import TrapHooks.Proofs.Inspect.Dump
import TrapHooks.Proofs.Inspect.Lossless
