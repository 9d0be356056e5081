import Runes.Wire.PrefixCode
import Runes.Wire.BigEndian
import Runes.Heap.Basic
import Runes.Exec.EState
import Runes.Exec.Fields
import Runes.Exec.Fold
import Runes.Libc.Buffer
import Runes.Libc.Stdio
import Runes.Libc.Number
import Runes.Protocol.Basic
import Runes.Protocol.Store
import Runes.Protocol.Load
import Runes.Protocol.LoadLogic
import Runes.Protocol.LoadLemmas
import Runes.Protocol.ParseLemmas
import Runes.Protocol.AcceptLemmas
import Runes.Protocol.MessageLemmas
import Runes.Protocol.Bounds
import Runes.Protocol.RoundTrip
import Runes.Protocol.Ownership
import Runes.Config.Args
import Runes.Config.MessageArgs
import Runes.Config.Set
import Runes.Config.Names
import Runes.Config.File
import Runes.Config.FileLemmas
import Runes.Config.FileBounds
import Runes.Config.Grammar
import Runes.Config.Agree
import Runes.Protocol.Socket
import Runes.Protocol.Interrupts
import Runes.Protocol.Packet
import Runes.Protocol.Refusal
import Runes.Refs.Basic
import Runes.Display.Cairo
import Runes.Display.Draw
import Runes.Display.Ownership
import Runes.Exec.Machine
import Runes.Refs.Holders
import Runes.Term.Scroll
import Runes.Term.PtyStream
import Runes.Xlib.Primary
import Runes.Display.Highlight
import Runes.Display.DrawLemmas
import Runes.Display.Batch
import Runes.Display.Glyphs
import Runes.Display.Colors
import Runes.Term.Refresh
import Runes.Term.Clicks
import Runes.Term.Drag
import Runes.Term.Selection
import Runes.Term.SelectionGrid
import Runes.Term.Registered
import Runes.Term.Report
import Runes.Order.Segments
import Runes.Term.Words
import Runes.Term.WordBounds
import Runes.Xlib.Connection
import Runes.Libc.Tokens
import Runes.Config.ColorValues
import Runes.Config.New
import Runes.Config.Unsigned
import Runes.Term.Flushed
import Runes.Term.Handles
import Runes.Term.Resize
import Runes.Wire.Delimiter
import Runes.Term.Paste
import Runes.Term.RedrawRate
import Runes.Display.GlyphBuf
import Runes.Term.GlyphBuf
import Runes.Unix.Paths
import Runes.Unix.FileSystem
import Runes.Unix.Extends
import Runes.Socket.Server
import Runes.Socket.ServerLemmas
import Runes.Socket.Prepare
import Runes.Socket.Relative
import Runes.Libc.Environ
import Runes.Unix.Descriptors
import Runes.Pty.Spawn
import Runes.Pty.Terminals
import Runes.Daemon.Service
import Runes.Daemon.Calls
import Runes.Daemon.Wire
import Runes.Daemon.Served
import Runes.Daemon.Progress
import Runes.Daemon.Environ
import Runes.Wire.Channels
import Runes.Term.Conversions
import Runes.Xlib.Exchange
import Runes.Xlib.Conversation
import Runes.Xlib.Pasted
import Runes.Config.Precedence
import Runes.Daemon.Options
import Runes.Term.Painted
import Runes.Term.Closing
import Runes.Term.Sizes
import Runes.Term.Pixels
import Runes.Config.Lifetimes
import Runes.Xlib.Highlighted
import Runes.Pty.Sessions
