import ImgVhdx.Endian
import ImgVhdx.Crc
import ImgVhdx.Error
import ImgVhdx.Header
import ImgVhdx.Bat
import ImgVhdx.Metadata
import ImgVhdx.RegionTable
import ImgVhdx.Lib.Circular
import ImgVhdx.Log.Entry
import ImgVhdx.Log.Chain
import ImgVhdx.Log.Walk
import ImgVhdx.Log.Scan
import ImgVhdx.Log.Encode
import ImgVhdx.Log.RoundTrip
import ImgVhdx.Log.Tiling
import ImgVhdx.Log.Batches
import ImgVhdx.Log.Older
import ImgVhdx.Log.Budget
import ImgVhdx.Log.Format
import ImgVhdx.Log.Reencode
import ImgVhdx.Device
import ImgVhdx.Log.Apply
import ImgVhdx.Reader.State
import ImgVhdx.Reader.Open
import ImgVhdx.Reader.Layout
import ImgVhdx.Reader.Image
import ImgVhdx.Reader.Opens
import ImgVhdx.Lib.Threads
import ImgVhdx.Reader.Moves
import ImgVhdx.Reader.Chunks
import ImgVhdx.Reader.Sound
import ImgVhdx.Reader.Invariant
import ImgVhdx.Reader.Steps
import ImgVhdx.Log.Replay
import ImgVhdx.Reader.Start
import ImgVhdx.Reader.Reads
import ImgVhdx.Reader.Payloads
import ImgVhdx.Reader.Guids
import ImgVhdx.Reader.Alone
import ImgVhdx.Reader.Journal
import ImgVhdx.Lib.Xor
import ImgVhdx.Reader.Opening
import ImgVhdx.Reader.Current
import ImgVhdx.Log.Front
import ImgVhdx.Reader.Pending
import ImgVhdx.Lib.Calls
import ImgVhdx.Reader.Validated
import ImgVhdx.Reader.Unknown
import ImgVhdx.Reader.Reopen
import ImgVhdx.Cli.Overlay
import ImgVhdx.Cli.InMemory
import ImgVhdx.Reader.Addressing
import ImgVhdx.Lib.Writes
import ImgVhdx.Reader.Applied
import ImgVhdx.Reader.Repeated
import ImgVhdx.Reader.Claims
import ImgVhdx.Reader.Allocations
import ImgVhdx.Reader.Reached
import ImgVhdx.Reader.Fresh
import ImgVhdx.Reader.Landing
import ImgVhdx.Reader.Refused
import ImgVhdx.Log.Growth
import ImgVhdx.Reader.Panics
import ImgVhdx.Log.Stamped
import ImgVhdx.Reader.Housed
import ImgVhdx.Lib.Numerals
import ImgVhdx.Cli.Size
import ImgVhdx.Cli.Array
import ImgVhdx.Cli.Read
import ImgVhdx.Lib.Files
import ImgVhdx.Reader.Announced
import ImgVhdx.Reader.Container
import ImgVhdx.Reader.Compose
import ImgVhdx.Cli.Write
import ImgVhdx.Reader.Session
import ImgVhdx.Reader.Durable
import ImgVhdx.Lib.Answers
import ImgVhdx.Reader.Served
import ImgVhdx.Reader.Lives
import ImgVhdx.Cli.Dirty
